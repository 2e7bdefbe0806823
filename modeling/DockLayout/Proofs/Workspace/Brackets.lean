import DockLayout.Proofs.Workspace.Drag

/-!
# Operations in turn

A beginning and the next end of an operation enclose it like brackets. No action begins an
operation while another is in progress, and what ends is what is in progress. So the marks
of a run are pairs, and after them, while an operation is in progress, its beginning.
-/

set_option autoImplicit false

namespace DockLayout

variable {K : Type}

/-! ## Marks in turn -/

namespace Mark

def pair (target : DragTarget) : List Mark := [.started target, .ended target]

/-- The operation in progress before some marks becomes the one that is in progress after
them: each mark begins one where there is none, or ends the one that there is. -/
inductive Turns : Option DragTarget → List Mark → Option DragTarget → Prop
  | still (current : Option DragTarget) : Turns current [] current
  | begins {target : DragTarget} {rest : List Mark} {later : Option DragTarget}
      (onward : Turns (some target) rest later) : Turns none (.started target :: rest) later
  | ends {target : DragTarget} {rest : List Mark} {later : Option DragTarget}
      (onward : Turns none rest later) : Turns (some target) (.ended target :: rest) later

namespace Turns

variable {current middle later : Option DragTarget} {marks rest : List Mark}

theorem append (turns : Turns current marks middle) (onward : Turns middle rest later) :
    Turns current (marks ++ rest) later := by
  induction turns with
  | still current => exact onward
  | begins _ ih => exact .begins (ih onward)
  | ends _ ih => exact .ends (ih onward)

/-- With the beginning of what was in progress, the marks are pairs and the beginning of
what is in progress. -/
theorem exists_pairs (turns : Turns current marks later) :
    ∃ finished : List DragTarget, current.toList.map started ++ marks =
      finished.flatMap pair ++ later.toList.map started := by
  induction turns with
  | still current => exact ⟨[], List.append_nil _⟩
  | begins _ ih => exact ih
  | @ends target rest later _ ih =>
    obtain ⟨finished, pairs⟩ := ih
    refine ⟨target :: finished, ?_⟩
    rw [List.flatMap_cons, List.append_assoc, ← pairs]
    rfl

end Turns

/-- Of pairs and the beginning of what is in progress, the last mark tells what this is. -/
theorem getLast?_pairs (finished : List DragTarget) (current : Option DragTarget)
    (target : DragTarget) :
    (finished.flatMap pair ++ current.toList.map started).getLast? = some (.started target) ↔
      current = some target := by
  cases current with
  | some other => simp
  | none =>
    rcases List.eq_nil_or_concat finished with rfl | ⟨front, last, rfl⟩
    · simp
    · simp [pair]

end Mark

open Event (marks)
open Mark (Turns)

namespace Session

variable [Scalar K] {s : Session K}

/-! ## One action -/

omit [Scalar K] in
theorem edit_turns {α : Type} (s : Session K) {outcome : Outcome K (Workspace K) α}
    (unmarked : marks outcome.events = []) :
    Turns s.target? (marks (s.edit outcome).events) (s.edit outcome).state.target? := by
  change Turns s.target? (marks outcome.events) s.target?
  rw [unmarked]
  exact .still _

theorem press_turns (s : Session K) (p : Point K) :
    Turns s.target? (marks (s.press p).events) (s.press p).state.target? := by
  rcases s.press_cases p with ⟨-, ignored⟩ | ⟨target, held, -, started⟩
  · rw [ignored]
    exact .still _
  · rw [started, target?, held]
    exact .begins (.still _)

theorem motion_target? (s : Session K) (p : Point K) :
    (s.motion p).state.target? = s.target? := by
  rcases s.motion_cases p with ⟨-, idle⟩ | ⟨gesture, held, ⟨-, still⟩ |
    ⟨handle, index, -, ⟨split, -, -, refused⟩ | ⟨ws, answer, events, -, moved⟩⟩⟩
  · rw [idle]
    rfl
  · rw [still, target?, target?, held]
    rfl
  · rw [refused]
    rfl
  · rw [moved, target?, target?, held]
    rfl

theorem motion_turns (s : Session K) (p : Point K) :
    Turns s.target? (marks (s.motion p).events) (s.motion p).state.target? := by
  rw [s.motion_marks p, s.motion_target? p]
  exact .still _

/-- A release that is refused by its last motion ends nothing, and any other release ends
what is in progress. -/
theorem release_turns (sound : s.Sound Regime.any) (p : Point K) :
    Turns s.target? (marks (s.release p).events) (s.release p).state.target? := by
  cases moved : (s.motion p).result with
  | ok answer =>
    have still := (sound.motion (show Regime.any.Pointer p from trivial)).workspace
    obtain ⟨-, idle, marked⟩ := release_of_moved still moved
    have ended : (s.release p).state.target? = none := by rw [target?, idle, Option.map_none]
    rw [marked, ended]
    cases s.target? with
    | none => exact .still none
    | some target => exact .ends (.still none)
  | error error =>
    cases held : s.gesture with
    | none =>
      rw [motion_of_idle held] at moved
      cases moved
    | some gesture =>
      have same : s.release p =
          ⟨⟨.error error, (s.motion p).events⟩, (s.motion p).state⟩ := by
        rw [release_of_held held]
        simp only [Outcome.andThen, moved]
      rw [same]
      exact s.motion_turns p

omit [Scalar K] in
theorem cancel_turns (s : Session K) :
    Turns s.target? (marks s.cancel.events) s.cancel.state.target? := by
  unfold cancel
  cases held : s.gesture with
  | none => exact .still _
  | some gesture =>
    rw [target?, held]
    exact .ends (.still none)

theorem perform_turns (sound : s.Sound Regime.any) (action : Action K) :
    Turns s.target? (marks (s.perform action).events) (s.perform action).state.target? := by
  cases action with
  | createDock pluginName pluginData => exact .still _
  | newSplitHandle => exact .still _
  | placeFirst dock => exact s.edit_turns (s.workspace.placeFirst_marks dock)
  | updateRect rect => exact s.edit_turns rfl
  | changeRatio handle index delta =>
    exact s.edit_turns (s.workspace.changeRatio_marks handle index delta)
  | splitBy direction target dock before ratio =>
    exact s.edit_turns (s.workspace.splitBy_marks direction target dock before ratio)
  | addTab target dock => exact s.edit_turns (s.workspace.addTab_marks target dock)
  | dropDock dock target => exact s.edit_turns (s.workspace.dropDock_marks dock target)
  | removeDock handle => exact s.edit_turns (s.workspace.removeDock_marks handle)
  | moveDock handle target => exact s.edit_turns (s.workspace.moveDock_marks handle target)
  | setActiveDock handle => exact s.edit_turns (s.workspace.setActiveDock_marks handle)
  | press p => exact s.press_turns p
  | motion p => exact s.motion_turns p
  | release p => exact release_turns sound p
  | cancel => exact s.cancel_turns

theorem kind?_iff {regime : Regime K} (sound : s.Sound regime) :
    (s.kind? = some .resize ↔
      ∃ handle index direction, s.target? = some (.sizer handle index direction)) ∧
    (s.kind? = some .moveDock ↔ ∃ handle, s.target? = some (.tab handle)) := by
  have fits : s.kind? = s.target?.map DragTarget.gestureKind := by
    rw [kind?, target?, Option.map_map]
    exact Option.map_congr sound.kind
  rw [fits]
  rcases s.target? with _ | ⟨handle, index, direction⟩ | handle <;>
    simp [DragTarget.gestureKind]

/-! ## Runs -/

theorem run_turns (sound : s.Sound Regime.any) (actions : List (Action K)) :
    Turns s.target? (marks (s.history actions)) (s.run actions).target? := by
  induction actions generalizing s with
  | nil => exact .still _
  | cons action rest ih =>
    have admitted := Regime.any_unconditional.admitted action
    rw [history, Event.marks_append]
    exact (perform_turns sound action).append (ih (sound.perform admitted))

/-- The marks of a run are pairs of a beginning and an end of one operation, followed by the
beginning of the operation in progress, if there is one; and what is dragged says what kind
of operation it is. -/
theorem operations_are_bracketed (ws : Workspace K) (reachable : ws.Reachable)
    (actions : List (Action K)) :
    let after := (start ws).run actions
    let marks := marks ((start ws).history actions)
    (∃ finished : List DragTarget,
      marks = (finished.flatMap fun target => [.started target, .ended target]) ++
        after.target?.toList.map Mark.started) ∧
    (∀ target, after.target? = some target ↔ marks.getLast? = some (.started target)) ∧
    (after.isActive = true ↔ ∃ target, marks.getLast? = some (.started target)) ∧
    (after.kind? = some .resize ↔
      ∃ handle index direction, after.target? = some (.sizer handle index direction)) ∧
    (after.kind? = some .moveDock ↔ ∃ handle, after.target? = some (.tab handle)) := by
  intro after marks
  have sound : after.Sound Regime.any := (Sound.start reachable.sound).run fun action _ =>
    Regime.any_unconditional.admitted action
  have turns := run_turns (Sound.start reachable.sound) actions
  obtain ⟨finished, pairs⟩ := turns.exists_pairs
  replace pairs : marks = finished.flatMap Mark.pair ++ after.target?.toList.map Mark.started :=
    pairs
  have last (target : DragTarget) :
      after.target? = some target ↔ marks.getLast? = some (.started target) := by
    rw [pairs]
    exact (Mark.getLast?_pairs finished after.target? target).symm
  have active : after.isActive = true ↔ ∃ target, after.target? = some target := by
    rw [isActive, target?, ← Option.isSome_iff_exists, Option.isSome_map]
  exact ⟨⟨finished, pairs⟩, last, active.trans (exists_congr last), kind?_iff sound⟩

/-- A drag of a boundary that goes away: the release is refused and ends nothing. The drag is
cancelled, and that of a tab begins. -/
def interrupted : List (Action Float) :=
  dragging ++ [.removeDock ⟨4⟩, .release ⟨740.0, 100.0⟩, .cancel, .press ⟨100.0, 10.0⟩]

theorem operations_are_bracketed_of_interrupted :
    let ws : Workspace Float := .empty ⟨0.0, 0.0, 1000.0, 800.0⟩ .standard
    ws.Reachable ∧
    marks ((start ws).history interrupted) =
      [.started (.sizer ⟨1⟩ 1 .vertical), .ended (.sizer ⟨1⟩ 1 .vertical),
        .started (.tab ⟨1⟩)] ∧
    ((start ws).run interrupted).isActive = true ∧
    ((start ws).run interrupted).target? = some (.tab ⟨1⟩) ∧
    ((start ws).run interrupted).kind? = some .moveDock := by
  intro ws
  have reachable : ws.Reachable := ⟨start ws, ⟨ws, [], .empty _ _, rfl⟩, rfl⟩
  have marked : marks ((start ws).history interrupted) =
      [.started (.sizer ⟨1⟩ 1 .vertical), .ended (.sizer ⟨1⟩ 1 .vertical),
        .started (.tab ⟨1⟩)] := by decide +kernel
  obtain ⟨-, last, active, -, move⟩ := operations_are_bracketed ws reachable interrupted
  have ends := congrArg List.getLast? marked
  have target := (last (.tab ⟨1⟩)).mpr ends
  exact ⟨reachable, marked, active.mpr ⟨_, ends⟩, target, move.mpr ⟨_, target⟩⟩

end Session

end DockLayout
