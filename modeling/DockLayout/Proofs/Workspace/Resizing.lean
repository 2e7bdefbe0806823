import DockLayout.Proofs.Tree.Resizing
import DockLayout.Proofs.Workspace.Move
import DockLayout.Proofs.Workspace.Splits

/-!
# Editing and resizing

Over the rationals a structural edit and a resize of the workspace can change places,
as long as the workspace has an area before and after. So a layout does not remember
which sizes its window has had.
-/

set_option autoImplicit false

namespace DockLayout

variable {K : Type} [Scalar K]

omit [Scalar K] in
theorem Outcome.within_andThen {σ α β : Type} {first other : Outcome K σ α}
    {next : σ → α → Outcome K σ β} {embed : σ → σ} (same : other = first.within embed)
    (onward : ∀ answer, next (embed first.state) answer =
      (next first.state answer).within embed) :
    other.andThen next = (first.andThen next).within embed := by
  obtain ⟨⟨result, events⟩, state⟩ := first
  rw [same]
  cases result with
  | error error => rfl
  | ok answer =>
    have later := onward answer
    simp only [andThen, within] at later ⊢
    rw [later]

namespace Workspace

/-- Handing on the rectangle and then running the operation is the same as running it
and then handing on the rectangle: same answer, same events, same workspace. -/
def Commutes {α : Type} (ws : Workspace K) (rect : Rect K)
    (operation : Workspace K → Outcome K (Workspace K) α) : Prop :=
  operation (ws.updateRect rect).state =
    (operation ws).within fun later => (later.updateRect rect).state

section Commuting

variable {regime : Regime K} {ws : Workspace K}

theorem locate?_updateRect (sound : ws.Sound regime) (rect : Rect K) (handle : DockHandle) :
    (ws.updateRect rect).state.locate? handle =
      (ws.locate? handle).map (Path.resizeFound rect) := by
  simp only [updateRect, Outcome.publish, locate?]
  cases rooted : ws.root with
  | none => rfl
  | some root => exact (sound.tree root rooted).1.locate?_resize handle rect

theorem addTab_commutes (sound : ws.Sound regime) (rect : Rect K) (target : DockHandle)
    (dock : Dock K) : ws.Commutes rect (·.addTab target dock) := by
  have search := locate?_updateRect sound rect target
  simp only [Commutes, addTab, search]
  cases found : ws.locate? target with
  | none => rfl
  | some entry =>
    obtain ⟨path, panel⟩ := entry
    obtain ⟨root, rooted, leads, -⟩ := locate?_eq_some found
    have put := leads.put_resize (sound.tree root rooted).1 rect
      (.container (panel.appendDock dock))
    rw [Area.resize] at put
    exact congrArg (fun root => Outcome.publish
      { (ws.updateRect rect).state with root := some root } true [.dockAdded dock]) put

theorem setActiveDock_commutes (sound : ws.Sound regime) (rect : Rect K) (handle : DockHandle) :
    ws.Commutes rect (·.setActiveDock handle) := by
  have search := locate?_updateRect sound rect handle
  simp only [Commutes, setActiveDock, search]
  cases found : ws.locate? handle with
  | none => rfl
  | some entry =>
    obtain ⟨path, panel⟩ := entry
    obtain ⟨root, rooted, leads, -, -, holds⟩ := locate?_eq_some found
    obtain ⟨index, -⟩ := Container.indexOf?_of_holds holds
    have indexAfter : ({ panel with rect := path.part rect } : Container K).indexOf? handle =
        some (panel.group.position handle) := index
    have put := leads.put_resize (sound.tree root rooted).1 rect
      (.container { panel with active := panel.group.position handle })
    rw [Area.resize] at put
    simp only [Option.map_some, Path.resizeFound, Container.setActive, index, indexAfter]
    exact congrArg (fun root => Outcome.quiet
      { (ws.updateRect rect).state with root := some root } true) put

theorem splitBy_commutes (sound : ws.Sound regime) (rect : Rect K) (direction : Direction)
    (target : DockHandle) (dock : Dock K) (before : Bool) (ratio : Option K) :
    ws.Commutes rect (·.splitBy direction target dock before ratio) := by
  have search := locate?_updateRect sound rect target
  simp only [Commutes, splitBy, search]
  cases found : ws.locate? target with
  | none => rfl
  | some entry =>
    obtain ⟨path, panel⟩ := entry
    obtain ⟨root, rooted, leads, -⟩ := locate?_eq_some found
    have settle := leads.settle_resize (sound.tree root rooted).1 rect
    have kept : (Area.container { panel with rect := path.part rect }).unplaced =
        (Area.container panel).unplaced := by
      simp only [Area.unplaced, Area.resize]
    have published : ∀ old new : Area K, new = old.resize (path.part rect) →
        (Outcome.publish { (ws.newSplitHandle.2.updateRect rect).state with
          root := some ((path.resize rect).settle new) } true
            [.splitCreated ⟨ws.nextSplit⟩, .dockAdded dock] : Outcome K (Workspace K) Bool) =
        Outcome.publish { (ws.newSplitHandle.2.updateRect rect).state with
          root := some ((path.settle old).resize rect) } true
            [.splitCreated ⟨ws.nextSplit⟩, .dockAdded dock] := by
      rintro old _ rfl
      rw [settle]
    cases before with
    | true => exact published _ _ (Split.pair_resize direction _ _ panel.rect _ rfl kept)
    | false => exact published _ _ (Split.pair_resize direction _ _ panel.rect _ kept rfl)

theorem dropDock_commutes (sound : ws.Sound regime) (rect : Rect K) (dock : Dock K)
    (target : DropTarget) : ws.Commutes rect (·.dropDock dock target) := by
  simp only [Commutes, dropDock]
  cases target.zone.direction? with
  | none => exact addTab_commutes sound rect target.handle dock
  | some direction =>
    exact splitBy_commutes sound rect direction target.handle dock target.zone.insertsBefore none

end Commuting

/-! ## Removing and moving -/

section Removing

variable {ws : Workspace ℚ} {rect : Rect ℚ}

theorem removeDock_commutes (sound : ws.Sound Regime.ordered) (similar : ws.rect.Similar rect)
    (handle : DockHandle) : ws.Commutes rect (·.removeDock handle) := by
  have search := locate?_updateRect sound rect handle
  simp only [Commutes, removeDock, search]
  cases found : ws.locate? handle with
  | none => rfl
  | some entry =>
    obtain ⟨path, panel⟩ := entry
    obtain ⟨root, rooted, leads, -, -, holds⟩ := locate?_eq_some found
    obtain ⟨tree, place⟩ := sound.tree root rooted
    obtain ⟨index, dock, present, -⟩ := Container.indexOf?_of_holds holds
    have indexAfter : ({ panel with rect := path.part rect } : Container ℚ).indexOf? handle =
        some (panel.group.position handle) := index
    simp only [Option.map_some, Path.resizeFound, Container.removeDock, index, indexAfter, present]
    rw [← place] at similar
    split
    · rw [leads.root_resize tree similar]
      rfl
    · have put := fun active => leads.put_resize tree rect
        (.container { panel with
          docks := panel.docks.eraseIdx (panel.group.position handle), active })
      simp only [Area.resize] at put
      exact congrArg (fun root => Outcome.publish
        { (ws.updateRect rect).state with root := some root } (some dock)
          [.dockRemoved dock]) (put _)

theorem moveDock_commutes (sound : ws.Sound Regime.ordered) (similar : ws.rect.Similar rect)
    (handle : DockHandle) (target : DropTarget) :
    ws.Commutes rect (·.moveDock handle target) := by
  have aim : ((ws.updateRect rect).state.findContainer? target.handle).isNone =
      (ws.findContainer? target.handle).isNone := by
    rw [findContainer?, findContainer?, locate?_updateRect sound]
    simp
  simp only [Commutes, moveDock, aim]
  split
  · rfl
  · split
    · rfl
    · apply Outcome.within_andThen (removeDock_commutes sound similar handle)
      intro removed
      cases removed with
      | none => rfl
      | some dock => exact dropDock_commutes (sound.removeDock handle) rect dock target

end Removing

/-- Each structural edit gives the same answer, posts the same events and leaves the
same workspace, whether the workspace gets its new rectangle before or after. -/
theorem resizing_commutes_with_edits (ws : Workspace ℚ) (reachable : ws.Reachable)
    (wide : 0 < ws.rect.width) (tall : 0 < ws.rect.height) (rect : Rect ℚ)
    (wideAfter : 0 < rect.width) (tallAfter : 0 < rect.height) :
    (∀ direction target dock before ratio,
      ws.Commutes rect (·.splitBy direction target dock before ratio)) ∧
    (∀ target dock, ws.Commutes rect (·.addTab target dock)) ∧
    (∀ dock target, ws.Commutes rect (·.dropDock dock target)) ∧
    (∀ handle, ws.Commutes rect (·.removeDock handle)) ∧
    (∀ handle target, ws.Commutes rect (·.moveDock handle target)) ∧
    (∀ handle, ws.Commutes rect (·.setActiveDock handle)) := by
  have sound := reachable.ordered
  have similar : ws.rect.Similar rect := by
    apply Rect.Similar.of_pos
    · intro axis
      cases axis with
      | horizontal => exact tall
      | vertical => exact wide
    · intro axis
      cases axis with
      | horizontal => exact tallAfter
      | vertical => exact wideAfter
  exact ⟨splitBy_commutes sound rect, addTab_commutes sound rect, dropDock_commutes sound rect,
    removeDock_commutes sound similar, moveDock_commutes sound similar,
    setActiveDock_commutes sound rect⟩

/-- Three columns, the second of which has lost its width and holds a panel above two
narrower columns. -/
def narrowed : Workspace ℚ :=
  let dock (value : Int) : Dock ℚ := ⟨⟨value⟩, .null, none⟩
  ((Session.start (.empty ⟨0, 0, 1000, 800⟩ .standard)).run [
    .placeFirst (dock 1),
    .splitBy .vertical ⟨1⟩ (dock 2) false none,
    .splitBy .horizontal ⟨2⟩ (dock 3) false none,
    .splitBy .vertical ⟨3⟩ (dock 4) false none,
    .removeDock ⟨2⟩,
    .changeRatio ⟨1⟩ 1 ⟨1000, 0⟩,
    .splitBy .horizontal ⟨3⟩ (dock 5) false none,
    .splitBy .vertical ⟨5⟩ (dock 6) false none]).workspace

theorem narrowed_reachable : narrowed.Reachable := ⟨_, ⟨_, _, .empty _ _, rfl⟩, rfl⟩

/-- Without the panel above them, the narrower columns share a place of no width evenly,
and do so in a workspace of another size as well. -/
theorem resizing_commutes_with_edits_of_narrowed :
    narrowed.Reachable ∧ 0 < narrowed.rect.width ∧ 0 < narrowed.rect.height ∧
    ((narrowed.removeDock ⟨3⟩).state.root.bind Area.split?).map (·.ratios) =
      some [1 / 2, 1 / 2, 1 / 2, 1] ∧
    narrowed.Commutes ⟨40, 30, 300, 500⟩ (·.removeDock ⟨3⟩) ∧
    narrowed.Commutes ⟨40, 30, 300, 500⟩ (·.moveDock ⟨3⟩ ⟨⟨1⟩, .left⟩) := by
  have wide : 0 < narrowed.rect.width := by decide +kernel
  have tall : 0 < narrowed.rect.height := by decide +kernel
  have merged : ((narrowed.removeDock ⟨3⟩).state.root.bind Area.split?).map (·.ratios) =
      some [1 / 2, 1 / 2, 1 / 2, 1] := by decide +kernel
  obtain ⟨-, -, -, removes, moves, -⟩ :=
    resizing_commutes_with_edits narrowed narrowed_reachable wide tall ⟨40, 30, 300, 500⟩
      (by decide +kernel) (by decide +kernel)
  exact ⟨narrowed_reachable, wide, tall, merged, removes ⟨3⟩, moves ⟨3⟩ ⟨⟨1⟩, .left⟩⟩

end Workspace

end DockLayout
