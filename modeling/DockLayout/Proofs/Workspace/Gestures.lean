import DockLayout.Proofs.Tree.Boundary
import DockLayout.Proofs.Workspace.Following

/-!
# What a gesture does

A tab that is dragged leaves the workspace alone until it is let go, and then moves as if it
had been moved at once. A boundary that is dragged takes nothing along but its own ratio and
the rectangles below its split.
-/

set_option autoImplicit false

namespace DockLayout

variable {K : Type} [Scalar K]

/-! ## One boundary of a workspace -/

namespace Workspace

def withRatio (ws : Workspace K) (path : Path K) (split : Split K) (index : Nat) (ratio : K) :
    Workspace K :=
  { ws with root := some (path.put (split.withRatio index ratio).toArea) }

/-- The split is what is found by its handle, and what takes its place is put at the end of
the path. -/
structure Finds (ws : Workspace K) (root : Area K) (path : Path K) (split : Split K) :
    Prop where
  rooted : ws.root = some root
  search : root.findSplit? split.handle = some split
  replaced : ∀ new : Split K, root.putSplit split.handle new = some (path.put new.toArea)

variable {ws : Workspace K} {root : Area K} {path : Path K} {split : Split K} {index : Nat}

omit [Scalar K] in
theorem exists_finds {handle : SplitHandle} (found : ws.findSplit? handle = some split) :
    split.handle = handle ∧ ∃ root path, ws.Finds root path split ∧
      path.Leads root split.toArea := by
  obtain ⟨root, rooted, search⟩ := Option.bind_eq_some_iff.mp found
  obtain ⟨rfl, path, leads, replaced⟩ := Area.findSplit?_leads search
  exact ⟨rfl, root, path, ⟨rooted, search, replaced⟩, leads⟩

theorem withRatio_self {regime : Regime K} (sound : ws.Sound regime)
    (rooted : ws.root = some root) (leads : path.Leads root split.toArea)
    (inside : index < split.ratios.length) :
    ws.withRatio path split index (split.ratios.getD index 0) = ws := by
  have whole := leads.sound_target (sound.tree root rooted).1
  rw [withRatio, Split.withRatio_self whole inside, leads.put_target, ← rooted]

theorem withRatio_withRatio (ws : Workspace K) (path : Path K) (split : Split K) (index : Nat)
    (first second : K) :
    (ws.withRatio path split index first).withRatio path (split.withRatio index first) index
      second = ws.withRatio path split index second := by
  rw [withRatio, Split.withRatio_withRatio]
  rfl

namespace Finds

theorem withRatio (finds : ws.Finds root path split) (index : Nat) (ratio : K) :
    (ws.withRatio path split index ratio).Finds (path.put (split.withRatio index ratio).toArea)
      path (split.withRatio index ratio) := by
  have named : (split.withRatio index ratio).handle = split.handle := rfl
  refine ⟨rfl, ?_, fun new => ?_⟩
  · have again := Area.findSplit?_putSplit named root
    rwa [finds.replaced, finds.search, Option.bind_some, Option.map_some] at again
  · have second : (root.putSplit split.handle (split.withRatio index ratio)).bind
        (Area.putSplit split.handle new) = root.putSplit split.handle new :=
      Area.putSplit_putSplit named root
    rwa [finds.replaced, finds.replaced, Option.bind_some] at second

theorem changeRatio (finds : ws.Finds root path split)
    (inside : index + 1 < split.ratios.length) (delta : Point K) :
    (ws.changeRatio split.handle index delta).result = .ok true ∧
      (ws.changeRatio split.handle index delta).state =
        ws.withRatio path split index (split.movedRatio index delta) := by
  have found : ws.findSplit? split.handle = some split := by
    rw [findSplit?, finds.rooted, Option.bind_some, finds.search]
  have valid : (0 : Int) ≤ index ∧ (index : Int) + 1 < split.ratios.length := by omega
  rw [Workspace.changeRatio, found]
  simp only [Split.changeRatio, if_pos valid, Outcome.quiet, Outcome.publish, Int.toNat_natCast,
    finds.rooted, Option.bind_some, finds.replaced, true_and]
  rfl

end Finds

end Workspace

/-! ## Sessions -/

namespace Session

variable {s : Session K} {before : Workspace K} {root : Area K} {path : Path K}
  {split : Split K} {index : Nat}

/-! ### Boundaries -/

/-- A gesture holds a boundary, and the workspace is as it was but for this boundary. -/
structure Grips (s : Session K) (before : Workspace K) (path : Path K) (split : Split K)
    (index : Nat) : Prop where
  gesture : ∃ direction last,
    s.gesture = some ⟨.resize, .sizer split.handle index direction, last⟩
  workspace : ∃ ratio, s.workspace = before.withRatio path split index ratio

theorem Grips.motion (grips : s.Grips before path split index)
    (finds : before.Finds root path split) (inside : index + 1 < split.ratios.length)
    (p : Point K) :
    (s.motion p).result = .ok () ∧ (s.motion p).state.Grips before path split index := by
  obtain ⟨direction, last, held⟩ := grips.gesture
  obtain ⟨ratio, same⟩ := grips.workspace
  have within : index + 1 < (split.withRatio index ratio).ratios.length := by
    rwa [Split.withRatio, Split.relayout, List.length_set]
  obtain ⟨answer, moved⟩ :=
    (finds.withRatio index ratio).changeRatio within ⟨last.x - p.x, last.y - p.y⟩
  rw [Workspace.withRatio_withRatio] at moved
  rw [motion_of_sizer held, same]
  simp only [Outcome.andThen, Session.edit, Outcome.within]
  -- the moved split has the handle of the one before
  rw [show split.handle = (split.withRatio index ratio).handle from rfl, answer]
  exact ⟨rfl, ⟨direction, p, rfl⟩, _, moved⟩

theorem Grips.run (grips : s.Grips before path split index) (finds : before.Finds root path split)
    (inside : index + 1 < split.ratios.length) (motions : List (Point K)) :
    (s.run (motions.map .motion)).Grips before path split index := by
  induction motions generalizing s with
  | nil => exact grips
  | cons p rest ih => exact ih (grips.motion finds inside p).2

/-- A release ends with a last motion and does nothing else. -/
theorem Grips.release (grips : s.Grips before path split index)
    (finds : before.Finds root path split) (inside : index + 1 < split.ratios.length)
    (p : Point K) :
    (s.release p).result = .ok false ∧
      ∃ ratio, (s.release p).state.workspace = before.withRatio path split index ratio := by
  obtain ⟨direction, last, held⟩ := grips.gesture
  obtain ⟨moved, after⟩ := grips.motion finds inside p
  rw [release_of_held held]
  simp only [Outcome.andThen, moved, drop, Gesture.dock?]
  exact ⟨rfl, after.workspace⟩

omit [Scalar K] in
theorem cancel_workspace (s : Session K) : s.cancel.state.workspace = s.workspace := by
  unfold cancel
  cases s.gesture <;> rfl

/-! ### Tabs -/

/-- A tab that is dragged leaves the workspace alone. -/
theorem run_of_tab {handle : DockHandle} {last : Point K}
    (held : s.gesture = some ⟨.moveDock, .tab handle, last⟩) (motions : List (Point K)) :
    (∃ last, (s.run (motions.map .motion)).gesture = some ⟨.moveDock, .tab handle, last⟩) ∧
      (s.run (motions.map .motion)).workspace = s.workspace ∧
      s.history (motions.map .motion) = [] := by
  induction motions generalizing s last with
  | nil => exact ⟨⟨last, held⟩, rfl, rfl⟩
  | cons p rest ih =>
    have quiet : s.perform (.motion p) =
        .quiet ⟨s.workspace, some ⟨.moveDock, .tab handle, p⟩⟩ .done := by
      rw [perform, motion_of_tab held]
      rfl
    rw [List.map_cons, run, List.foldl_cons, history, quiet]
    exact ih rfl

/-- A release moves the dragged tab to the drop target at the pointer, if there is one. -/
theorem release_of_tab {handle : DockHandle} {last : Point K}
    (held : s.gesture = some ⟨.moveDock, .tab handle, last⟩)
    (sound : s.workspace.Sound Regime.any) (p : Point K) :
    ∃ aimed, s.workspace.dropTarget? p = .ok aimed ∧
      let dropped := aimed.elim (.quiet s.workspace false) (s.workspace.moveDock handle)
      (∃ changed, dropped.result = .ok changed ∧ (s.release p).result = .ok changed) ∧
      (s.release p).state.workspace = dropped.state ∧
      (s.release p).events = dropped.events ++ [.operationEnded (.tab handle)] := by
  obtain ⟨aimed, answered⟩ := sound.dropTarget?_ok p
  refine ⟨aimed, answered, ?_⟩
  rw [release_of_held held, motion_of_tab held, Outcome.quiet_andThen]
  simp only [Outcome.andThen, drop, Gesture.dock?, answered]
  cases aimed with
  | none => exact ⟨⟨false, rfl, rfl⟩, rfl, rfl⟩
  | some place =>
    obtain ⟨moved, ok⟩ := s.workspace.moveDock_ok handle place
    simp only [edit, Outcome.within, ok, Option.elim_some, Outcome.publish]
    exact ⟨⟨moved, rfl, rfl⟩, trivial, trivial⟩

/-! ### Gestures -/

theorem press_started {start : Point K} (started : (s.press start).result = .ok true) :
    ∃ target, s.workspace.dragTarget? start = some target ∧
      (s.press start).state = ⟨s.workspace, some ⟨target.gestureKind, target, start⟩⟩ := by
  rcases s.press_cases start with ⟨-, ignored⟩ | ⟨target, -, grabbed, same⟩
  · rw [ignored] at started
    cases started
  · rw [same]
    exact ⟨target, grabbed, rfl⟩

/-- Whatever way the pointer takes, only where it is let go matters for a tab that is
dragged: it is moved to the drop target there, and until then and without one nothing
happens. A boundary that is dragged changes its own ratio and nothing else, and its release
answers that it has moved nothing. -/
theorem gestures_do_what_their_release_does (s : Session K) (reachable : s.Reachable)
    (start : Point K) (started : (s.press start).result = .ok true)
    (motions : List (Point K)) :
    let begun := (s.press start).state
    let held := begun.run (motions.map .motion)
    (∀ handle, begun.target? = some (.tab handle) →
      held.workspace = s.workspace ∧ begun.history (motions.map .motion) = [] ∧
      held.cancel.state.workspace = s.workspace ∧
      ∀ p, ∃ aimed, s.workspace.dropTarget? p = .ok aimed ∧
        let dropped := aimed.elim (.quiet s.workspace false) (s.workspace.moveDock handle)
        (∃ changed, dropped.result = .ok changed ∧ (held.release p).result = .ok changed) ∧
        (held.release p).state.workspace = dropped.state ∧
        (held.release p).events = dropped.events ++ [.operationEnded (.tab handle)]) ∧
    (∀ handle index direction, begun.target? = some (.sizer handle index direction) →
      s.workspace.splitHandles.Nodup →
      ∃ root path split, s.workspace.root = some root ∧ path.Leads root split.toArea ∧
        split.handle = handle ∧ index + 1 < split.ratios.length ∧
        (∃ ratio, held.workspace = s.workspace.withRatio path split index ratio) ∧
        (∃ ratio, held.cancel.state.workspace =
          s.workspace.withRatio path split index ratio) ∧
        ∀ p, (held.release p).result = .ok false ∧
          ∃ ratio, (held.release p).state.workspace =
            s.workspace.withRatio path split index ratio) := by
  intro begun held
  obtain ⟨target, grabbed, same⟩ := press_started started
  have here : begun.workspace = s.workspace := by rw [show begun = _ from same]
  have dragged : begun.target? = some target := congrArg target? same
  have engaged : begun.gesture = some ⟨target.gestureKind, target, start⟩ :=
    congrArg Session.gesture same
  constructor
  · intro handle tab
    rw [dragged] at tab
    cases tab
    obtain ⟨⟨last, still⟩, unchanged, quiet⟩ := run_of_tab engaged motions
    rw [here] at unchanged
    refine ⟨unchanged, quiet, (cancel_workspace held).trans unchanged, fun p => ?_⟩
    have sound : held.workspace.Sound Regime.any := by
      rw [unchanged]
      exact reachable.sound.workspace
    have dropped := release_of_tab still sound p
    rwa [unchanged] at dropped
  · intro handle index direction sizer apart
    rw [dragged] at sizer
    cases sizer
    obtain ⟨split, found, -, inside⟩ := Workspace.findSplit?_of_sizer apart grabbed
    obtain ⟨rfl, root, path, finds, leads⟩ := Workspace.exists_finds found
    have still := Workspace.withRatio_self reachable.sound.workspace finds.rooted leads
      (Nat.lt_of_succ_lt inside)
    have grips : begun.Grips s.workspace path split index :=
      ⟨⟨direction, start, engaged⟩, _, here.trans still.symm⟩
    have after := grips.run finds inside motions
    refine ⟨root, path, split, finds.rooted, leads, rfl, inside, after.workspace, ?_, ?_⟩
    · rw [cancel_workspace]
      exact after.workspace
    · exact after.release finds inside

/-- The tab of the first of two columns is carried to the right edge of the second one, and
the boundary between them past the edge of the workspace and back. -/
theorem gestures_do_what_their_release_does_of_halves :
    halves.Reachable ∧
    ((halves.press ⟨10, 10⟩).result = .ok true ∧
      let held := (halves.press ⟨10, 10⟩).state.run [.motion ⟨400, 300⟩, .motion ⟨500, 400⟩]
      held.workspace = halves.workspace ∧ held.cancel.state.workspace = halves.workspace ∧
      (held.release ⟨990, 400⟩).state.workspace =
        (halves.workspace.moveDock ⟨1⟩ ⟨⟨2⟩, .right⟩).state) ∧
    ((halves.press ⟨500, 400⟩).result = .ok true ∧ halves.workspace.splitHandles = [⟨1⟩] ∧
      let held := (halves.press ⟨500, 400⟩).state.run [.motion ⟨1100, 400⟩, .motion ⟨10, 10⟩]
      (held.release ⟨990, 400⟩).result = .ok false ∧
      ∃ root path split ratio, halves.workspace.root = some root ∧
        path.Leads root split.toArea ∧ split.handle = ⟨1⟩ ∧
        (held.release ⟨990, 400⟩).state.workspace =
          halves.workspace.withRatio path split 0 ratio) := by
  have carried : (halves.press ⟨10, 10⟩).result = .ok true :=
    Success.toOption_eq_some.mp (by decide +kernel)
  have tab : (halves.press ⟨10, 10⟩).state.target? = some (.tab ⟨1⟩) := by decide +kernel
  have aim : halves.workspace.dropTarget? ⟨990, 400⟩ = .ok (some ⟨⟨2⟩, .right⟩) :=
    Success.toOption_eq_some.mp (by decide +kernel)
  have grabbed : (halves.press ⟨500, 400⟩).result = .ok true :=
    Success.toOption_eq_some.mp (by decide +kernel)
  have sizer : (halves.press ⟨500, 400⟩).state.target? = some (.sizer ⟨1⟩ 0 .vertical) := by
    decide +kernel
  have splits : halves.workspace.splitHandles = [⟨1⟩] := by decide +kernel
  have apart : halves.workspace.splitHandles.Nodup := by
    rw [splits]
    decide
  obtain ⟨still, -, back, drops⟩ := (gestures_do_what_their_release_does halves halves_reachable
    ⟨10, 10⟩ carried [⟨400, 300⟩, ⟨500, 400⟩]).1 _ tab
  obtain ⟨root, path, split, rooted, leads, named, -, -, -, ends⟩ :=
    (gestures_do_what_their_release_does halves halves_reachable ⟨500, 400⟩ grabbed
      [⟨1100, 400⟩, ⟨10, 10⟩]).2 _ _ _ sizer apart
  obtain ⟨aimed, answered, -, moved, -⟩ := drops ⟨990, 400⟩
  rw [aim] at answered
  cases answered
  obtain ⟨answer, ratio, after⟩ := ends ⟨990, 400⟩
  exact ⟨halves_reachable, ⟨carried, still, back, moved⟩, grabbed, splits, answer, root, path,
    split, ratio, rooted, leads, named, after⟩

end Session

end DockLayout
