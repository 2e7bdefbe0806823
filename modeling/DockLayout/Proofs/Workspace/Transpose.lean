import DockLayout.Proofs.Tree.Transpose
import DockLayout.Workspace.Basic

/-!
# Transposed workspaces

A workspace on its side behaves as the workspace does: whatever is done to it, with
directions, rectangles and displacements on their side as well, has the same answer
and leaves the same workspace on its side.
-/

set_option autoImplicit false

namespace DockLayout

variable {K : Type}

def Event.transpose : Event K → Event K
  | .layoutUpdated rect => .layoutUpdated rect.swap
  | .layoutLoaded root => .layoutLoaded (root.map Area.transpose)
  | .operationStarted target => .operationStarted target.transpose
  | .operationEnded target => .operationEnded target.transpose
  | event => event

def Workspace.transpose (ws : Workspace K) : Workspace K :=
  { ws with rect := ws.rect.swap, root := ws.root.map Area.transpose }

def Outcome.transpose {α : Type} (outcome : Outcome K (Workspace K) α) :
    Outcome K (Workspace K) α :=
  { result := outcome.result
    events := outcome.events.map Event.transpose
    state := outcome.state.transpose }

/-! ## The events of a removal -/

section Removing

variable [Scalar K]

theorem Remains.map_transpose_root (path : Path K) :
    (root path.vacate).2.map Event.transpose = (root path.vacate).2 := by
  refine (List.map_congr_left ?_).trans (List.map_id _)
  intro event listed
  obtain ⟨handle, rfl⟩ := root_posts path.vacate_posts event listed
  rfl

end Removing

namespace Workspace

/-! ## Look-up -/

theorem locate?_transpose (ws : Workspace K) (handle : DockHandle) :
    ws.transpose.locate? handle = (ws.locate? handle).map Area.transposeFound := by
  simp only [locate?, transpose]
  cases ws.root with
  | none => rfl
  | some root => exact root.locate?_transpose handle

theorem findSplit?_transpose (ws : Workspace K) (handle : SplitHandle) :
    ws.transpose.findSplit? handle = (ws.findSplit? handle).map Split.transpose := by
  simp only [findSplit?, transpose]
  cases ws.root with
  | none => rfl
  | some root => exact root.findSplit?_transpose handle

variable [Scalar K]

/-! ## Operations -/

theorem updateRect_transpose (ws : Workspace K) (rect : Rect K) :
    ws.transpose.updateRect rect.swap = (ws.updateRect rect).transpose := by
  have root : (ws.root.map Area.transpose).map (fun root => root.resize rect.swap) =
      (ws.root.map fun root => root.resize rect).map Area.transpose := by
    rw [Option.map_map, Option.map_map]
    exact congrArg (Option.map · ws.root) (funext fun root => root.resize_transpose rect)
  exact congrArg (fun root => Outcome.publish { ws with rect := rect.swap, root } ()
    [.layoutUpdated rect.swap]) root

theorem changeRatio_transpose (ws : Workspace K) (handle : SplitHandle) (index : Int)
    (delta : Point K) :
    ws.transpose.changeRatio handle index delta.swap =
      (ws.changeRatio handle index delta).transpose := by
  simp only [changeRatio, findSplit?_transpose]
  cases ws.findSplit? handle with
  | none => rfl
  | some split =>
    simp only [Option.map_some, split.changeRatio_transpose index delta]
    generalize split.changeRatio index delta = moved
    obtain ⟨⟨result, events⟩, state⟩ := moved
    cases result with
    | error error => rfl
    | ok answer =>
      have root : (ws.root.map Area.transpose).bind (Area.putSplit handle state.transpose) =
          (ws.root.bind (Area.putSplit handle state)).map Area.transpose := by
        cases ws.root with
        | none => rfl
        | some root => exact root.putSplit_transpose handle state
      exact congrArg (fun root => Outcome.publish { ws.transpose with root } true
        [.ratioChanged handle index.toNat (state.ratios.getD index.toNat 0)]) root

theorem splitBy_transpose (ws : Workspace K) (direction : Direction) (target : DockHandle)
    (dock : Dock K) (before : Bool) (ratio : Option K) :
    ws.transpose.splitBy direction.flip target dock before ratio =
      (ws.splitBy direction target dock before ratio).transpose := by
  simp only [splitBy, locate?_transpose]
  cases ws.locate? target with
  | none => rfl
  | some entry =>
    obtain ⟨path, panel⟩ := entry
    have published : ∀ old new : Split K, new = old.transpose →
        (Outcome.publish { ws.newSplitHandle.2.transpose with
          root := some (path.transpose.settle new.toArea) } true
            [.splitCreated ⟨ws.nextSplit⟩, .dockAdded dock] : Outcome K (Workspace K) Bool) =
        Outcome.publish { ws.newSplitHandle.2.transpose with
          root := some (path.settle old.toArea).transpose } true
            [.splitCreated ⟨ws.nextSplit⟩, .dockAdded dock] := by
      rintro old _ rfl
      rw [Split.toArea_transpose, path.settle_transpose]
    -- the new container has the zero rectangle, which is its own reflection
    have pair := fun share first second =>
      Split.pair_transpose direction share ⟨ws.nextSplit⟩ panel.rect first second
    cases before with
    | true =>
      exact published _ _ (pair _ (.container (ws.newContainer dock .zero)) (.container panel))
    | false =>
      exact published _ _ (pair _ (.container panel) (.container (ws.newContainer dock .zero)))

omit [Scalar K] in
theorem addTab_transpose (ws : Workspace K) (target : DockHandle) (dock : Dock K) :
    ws.transpose.addTab target dock = (ws.addTab target dock).transpose := by
  simp only [addTab, locate?_transpose]
  cases ws.locate? target with
  | none => rfl
  | some entry =>
    obtain ⟨path, panel⟩ := entry
    have put := path.put_transpose (.container (panel.appendDock dock))
    exact congrArg (fun root => Outcome.publish { ws.transpose with root := some root } true
      [.dockAdded dock]) put

omit [Scalar K] in
theorem setActiveDock_transpose (ws : Workspace K) (handle : DockHandle) :
    ws.transpose.setActiveDock handle = (ws.setActiveDock handle).transpose := by
  simp only [setActiveDock, locate?_transpose]
  cases ws.locate? handle with
  | none => rfl
  | some entry =>
    obtain ⟨path, panel⟩ := entry
    have active : panel.transpose.setActive handle =
        ((panel.setActive handle).1, (panel.setActive handle).2.transpose) := by
      simp only [Container.setActive, Container.indexOf?, Container.transpose]
      split
      · rfl
      · rfl
    have put := path.put_transpose (.container (panel.setActive handle).2)
    simp only [Option.map_some, Area.transposeFound, active]
    exact congrArg (fun root => Outcome.quiet { ws.transpose with root := some root }
      (panel.setActive handle).1) put

theorem removeDock_transpose (ws : Workspace K) (handle : DockHandle) :
    ws.transpose.removeDock handle = (ws.removeDock handle).transpose := by
  simp only [removeDock, locate?_transpose]
  cases ws.locate? handle with
  | none => rfl
  | some entry =>
    obtain ⟨path, panel⟩ := entry
    have removed : panel.transpose.removeDock handle =
        ((panel.removeDock handle).1, (panel.removeDock handle).2.transpose) := by
      simp only [Container.removeDock, Container.indexOf?, Container.transpose]
      split
      · rfl
      · rfl
    simp only [Option.map_some, Area.transposeFound, removed]
    cases taken : panel.removeDock handle with
    | mk dock rest =>
      cases dock with
      | none => rfl
      | some dock =>
        have docks : rest.transpose.docks = rest.docks := rfl
        simp only [docks]
        split
        · have left := Remains.root_transpose path.vacate
          rw [← path.vacate_transpose] at left
          have events := Remains.map_transpose_root path
          simp only [left, Outcome.publish, Outcome.transpose, List.map_append, events]
          rfl
        · have put := path.put_transpose (.container rest)
          exact congrArg (fun root => Outcome.publish { ws.transpose with root := some root }
            (some dock) [.dockRemoved dock]) put

/-! ## Hit tests -/

theorem dockAt?_transpose (ws : Workspace K) (p : Point K) :
    ws.transpose.dockAt? p.swap = ws.dockAt? p := by
  simp only [dockAt?, transpose]
  cases ws.root with
  | none => rfl
  | some root => exact root.dockAt?_transpose p

theorem dragTarget?_transpose (ws : Workspace K) (p : Point K) :
    (ws.transpose.dragTarget? p.swap).bind DragTarget.sizer? =
      ((ws.dragTarget? p).bind DragTarget.sizer?).map DragTarget.transpose := by
  simp only [dragTarget?, transpose]
  cases ws.root with
  | none => rfl
  | some root => exact root.dragTarget?_transpose p

/-- Rows and columns are mirror images of each other for every operation that is told
directions or rectangles, or that merges splits, and for the search for a boundary or a
dock under the pointer. -/
theorem operations_transpose (ws : Workspace K) :
    (∀ rect, ws.transpose.updateRect rect.swap = (ws.updateRect rect).transpose) ∧
    (∀ handle index delta, ws.transpose.changeRatio handle index delta.swap =
      (ws.changeRatio handle index delta).transpose) ∧
    (∀ direction target dock before ratio,
      ws.transpose.splitBy direction.flip target dock before ratio =
        (ws.splitBy direction target dock before ratio).transpose) ∧
    (∀ target dock, ws.transpose.addTab target dock = (ws.addTab target dock).transpose) ∧
    (∀ handle, ws.transpose.removeDock handle = (ws.removeDock handle).transpose) ∧
    (∀ handle, ws.transpose.setActiveDock handle = (ws.setActiveDock handle).transpose) ∧
    (∀ p, ws.transpose.dockAt? p.swap = ws.dockAt? p) ∧
    (∀ p, (ws.transpose.dragTarget? p.swap).bind DragTarget.sizer? =
      ((ws.dragTarget? p).bind DragTarget.sizer?).map DragTarget.transpose) :=
  ⟨ws.updateRect_transpose, ws.changeRatio_transpose, ws.splitBy_transpose, ws.addTab_transpose,
    ws.removeDock_transpose, ws.setActiveDock_transpose, ws.dockAt?_transpose,
    ws.dragTarget?_transpose⟩

end Workspace

end DockLayout
