import DockLayout.Proofs.Tree.Refusals
import DockLayout.Proofs.Workspace.Drag

/-!
# Refused actions

A session that was reached by a run refuses four things: a second first dock, a
move of a boundary that is not there, and the motion and the release of a drag
whose boundary has gone. In each case the check comes before the first change, also
where one operation calls others, so a refused action leaves the session as it was
and publishes nothing.
-/

set_option autoImplicit false

namespace DockLayout

variable {K : Type}

/-! ## Answers that cannot be errors -/

theorem Outcome.answering_error {σ α β : Type} {outcome : Outcome K σ α} {f : α → β}
    {error : LayoutError K} (failed : (outcome.answering f).result = .error error) :
    outcome.result = .error error := by
  obtain ⟨⟨result, events⟩, state⟩ := outcome
  cases result with
  | error cause => cases failed; rfl
  | ok answer => cases failed

variable [Scalar K]

namespace Workspace

theorem splitBy_ok (ws : Workspace K) (direction : Direction) (target : DockHandle)
    (dock : Dock K) (before : Bool) (ratio : Option K) :
    ∃ found, (ws.splitBy direction target dock before ratio).result = .ok found := by
  unfold splitBy
  cases ws.locate? target with
  | none => exact ⟨false, rfl⟩
  | some entry => exact ⟨true, rfl⟩

omit [Scalar K] in
theorem addTab_ok (ws : Workspace K) (target : DockHandle) (dock : Dock K) :
    ∃ found, (ws.addTab target dock).result = .ok found := by
  unfold addTab
  cases ws.locate? target with
  | none => exact ⟨false, rfl⟩
  | some entry => exact ⟨true, rfl⟩

omit [Scalar K] in
theorem setActiveDock_ok (ws : Workspace K) (handle : DockHandle) :
    ∃ shown, (ws.setActiveDock handle).result = .ok shown := by
  unfold setActiveDock
  cases ws.locate? handle with
  | none => exact ⟨false, rfl⟩
  | some entry => exact ⟨_, rfl⟩

theorem changeRatio_of_outside {ws : Workspace K} {handle : SplitHandle} {split : Split K}
    (found : ws.findSplit? handle = some split) {index : Int}
    (outside : ¬ split.HasBoundary index) (delta : Point K) :
    ws.changeRatio handle index delta =
      .refuse ws (.boundaryIndex index split.handle (split.ratios.length - 1)) := by
  simp only [changeRatio, found, Split.changeRatio_of_outside outside, Outcome.refuse]

end Workspace

namespace Session

theorem press_ok (s : Session K) (p : Point K) : ∃ started, (s.press p).result = .ok started := by
  rcases s.press_cases p with ⟨-, ignored⟩ | ⟨target, -, -, started⟩
  · rw [ignored]
    exact ⟨false, rfl⟩
  · rw [started]
    exact ⟨true, rfl⟩

/-! ## What is refused -/

/-- What a session refuses, and the error it answers. -/
inductive Refuses (s : Session K) : Action K → LayoutError K → Prop
  | rootExists {root : Area K} (rooted : s.workspace.root = some root) (dock : Dock K) :
      Refuses s (.placeFirst dock) .rootExists
  | boundary {handle : SplitHandle} {split : Split K} {index : Int}
      (found : s.workspace.findSplit? handle = some split)
      (outside : ¬ split.HasBoundary index) (delta : Point K) :
      Refuses s (.changeRatio handle index delta)
        (.boundaryIndex index split.handle (split.ratios.length - 1))
  | motion {index : Nat} {split : Split K} (lost : s.LostBoundary index split) (p : Point K) :
      Refuses s (.motion p)
        (.boundaryIndex index split.handle (split.children.length - 1))
  | release {index : Nat} {split : Split K} (lost : s.LostBoundary index split) (p : Point K) :
      Refuses s (.release p)
        (.boundaryIndex index split.handle (split.children.length - 1))

theorem Refuses.perform_eq {s : Session K} (sound : s.Sound Regime.any)
    {action : Action K} {error : LayoutError K} (refuses : s.Refuses action error) :
    s.perform action = .refuse s error := by
  cases refuses with
  | rootExists rooted dock =>
    simp only [perform, Workspace.placeFirst, rooted]
    rfl
  | boundary found outside delta =>
    rw [perform, Workspace.changeRatio_of_outside found outside]
    rfl
  | motion lost p =>
    rw [perform, motion_of_lost sound lost]
    rfl
  | release lost p =>
    rw [perform, release_of_lost sound lost]
    rfl

/-- An action that fails does so for one of the reasons listed. Motion and release
are split by whether the boundary is lost, and never fail when it is not: the tree
is sound, so wherever the pointer is a container has a dock to show. -/
theorem refuses_of_error {s : Session K} (sound : s.Sound Regime.any)
    {action : Action K} {error : LayoutError K}
    (failed : (s.perform action).result = .error error) : s.Refuses action error := by
  have impossible : ∀ {α : Type} {result : Except (LayoutError K) α},
      (∃ answer, result = .ok answer) → result ≠ .error error := by
    rintro α result ⟨answer, rfl⟩ wrong
    cases wrong
  cases action with
  | createDock pluginName pluginData => cases failed
  | newSplitHandle => cases failed
  | updateRect rect => cases failed
  | cancel =>
    replace failed := Outcome.answering_error failed
    unfold Session.cancel at failed
    split at failed <;> cases failed
  | splitBy direction target dock before ratio =>
    exact absurd (Outcome.answering_error failed)
      (impossible (s.workspace.splitBy_ok direction target dock before ratio))
  | addTab target dock =>
    exact absurd (Outcome.answering_error failed) (impossible (s.workspace.addTab_ok target dock))
  | dropDock dock target =>
    exact absurd (Outcome.answering_error failed)
      (impossible (s.workspace.dropDock_ok dock target))
  | removeDock handle =>
    exact absurd (Outcome.answering_error failed)
      (impossible (s.workspace.removeDock_ok handle))
  | moveDock handle target =>
    exact absurd (Outcome.answering_error failed)
      (impossible (s.workspace.moveDock_ok handle target))
  | setActiveDock handle =>
    exact absurd (Outcome.answering_error failed)
      (impossible (s.workspace.setActiveDock_ok handle))
  | press p => exact absurd (Outcome.answering_error failed) (impossible (s.press_ok p))
  | placeFirst dock =>
    replace failed := Outcome.answering_error failed
    cases rooted : s.workspace.root with
    | none =>
      simp only [edit, Outcome.within, Workspace.placeFirst, rooted] at failed
      cases failed
    | some root =>
      simp only [edit, Outcome.within, Workspace.placeFirst, rooted] at failed
      cases failed
      exact .rootExists rooted dock
  | changeRatio handle index delta =>
    replace failed := Outcome.answering_error failed
    rcases s.workspace.changeRatio_cases handle index delta with
      ⟨-, missed⟩ | ⟨split, found, outside, refused⟩ |
      ⟨split, moved, root, path, -, -, -, -, -, changed⟩
    · rw [missed] at failed
      cases failed
    · rw [refused] at failed
      cases failed
      exact .boundary found outside delta
    · rw [changed] at failed
      cases failed
  | motion p =>
    by_cases lost : ∃ index split, s.LostBoundary index split
    · obtain ⟨index, split, lost⟩ := lost
      have refuses := Refuses.motion lost p
      rw [refuses.perform_eq sound] at failed
      cases failed
      exact refuses
    · have kept : ∀ index split, ¬ s.LostBoundary index split :=
        fun index split here => lost ⟨index, split, here⟩
      have moved := (motion_ok sound.workspace kept p).1
      exact absurd (Outcome.answering_error failed) (impossible ⟨(), moved⟩)
  | release p =>
    by_cases lost : ∃ index split, s.LostBoundary index split
    · obtain ⟨index, split, lost⟩ := lost
      have refuses := Refuses.release lost p
      rw [refuses.perform_eq sound] at failed
      cases failed
      exact refuses
    · have kept : ∀ index split, ¬ s.LostBoundary index split :=
        fun index split here => lost ⟨index, split, here⟩
      have ended := (release_of_kept sound.workspace kept p).1
      exact absurd (Outcome.answering_error failed) (impossible ended)

/-- Failed operations change nothing: an action that fails leaves a session that can
be reached as it was, with its tree, rectangle, counters and gesture, and publishes
no event. The same holds of the edits of any split. An area takes up a rectangle only as
a child of the split that an edit leads to; since a failed edit leads to the split
itself, it places none of the areas it was to bring. What fails, and with which error,
is `Refuses`. -/
theorem failures_change_nothing (s : Session K) (reachable : s.Reachable) (split : Split K) :
    (∀ action error, (s.perform action).result = .error error →
      s.perform action = .refuse s error) ∧
    (∀ action error, s.perform action = .refuse s error ↔ s.Refuses action error) ∧
    (∀ edit error, (split.apply edit).result = .error error →
      split.apply edit = .refuse split error) ∧
    (∀ edit error, split.apply edit = .refuse split error ↔ split.Refuses edit error) := by
  have sound := reachable.sound
  refine ⟨?_, ?_, ?_, split.apply_eq_refuse_iff⟩
  · intro action error failed
    exact (refuses_of_error sound failed).perform_eq sound
  · intro action error
    exact ⟨fun refused => refuses_of_error sound (refused ▸ rfl), fun refuses =>
      refuses.perform_eq sound⟩
  · intro edit error failed
    exact (Split.refuses_of_error failed).apply_eq

/-- A split with one child, as a layout file may have it. -/
def lonely : Split Float :=
  { handle := ⟨7⟩, direction := .vertical, ratios := [1.0], rect := .zero
    children := [.container ⟨[⟨⟨1⟩, .null, none⟩], 0, .zero, 20.0, 0.25⟩] }

theorem failures_change_nothing_at_shrunk :
    shrunk.Reachable ∧
    shrunk.perform (.placeFirst ⟨⟨9⟩, .null, none⟩) = .refuse shrunk .rootExists ∧
    shrunk.perform (.motion ⟨740.0, 100.0⟩) = .refuse shrunk (.boundaryIndex 1 ⟨1⟩ 1) ∧
    shrunk.perform (.release ⟨740.0, 100.0⟩) = .refuse shrunk (.boundaryIndex 1 ⟨1⟩ 1) ∧
    lonely.apply (.removeChild 0) = .refuse lonely (.onlyChild ⟨7⟩) ∧
    lonely.apply (.expandChild (-1) []) = .refuse lonely (.childIndex (-1) ⟨7⟩ 1) := by
  have refused := failures_change_nothing shrunk shrunk_reachable lonely
  have rooted : shrunk.workspace.root.isSome = true := by decide +kernel
  obtain ⟨root, same⟩ := Option.isSome_iff_exists.mp rooted
  obtain ⟨split, lost, named, two⟩ := shrunk_lost
  have motion := (refused.2.1 _ _).mpr (.motion lost ⟨740.0, 100.0⟩)
  have release := (refused.2.1 _ _).mpr (.release lost ⟨740.0, 100.0⟩)
  rw [named, two] at motion release
  exact ⟨shrunk_reachable, (refused.2.1 _ _).mpr (.rootExists same _), motion, release,
    refused.2.2.1 _ _ rfl, refused.2.2.1 _ _ rfl⟩

end Session

end DockLayout
