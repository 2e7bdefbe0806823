import DockLayout.Proofs.Workspace.Marks
import DockLayout.Proofs.Workspace.Reachable

/-!
# Finishing a drag

Between a press and a release the layout may change in any way. A dragged tab,
and a boundary of a split that has gone away, can still be let go. What cannot
is a boundary that its split has lost because it has fewer children than at the
press: then motion and release are refused, and the gesture stays in progress.
-/

set_option autoImplicit false

namespace DockLayout

variable {K : Type}

/-! ## Endings -/

namespace Event

def ended? : Event K → Option DragTarget
  | .operationEnded target => some target
  | _ => none

def endings (events : List (Event K)) : List DragTarget := events.filterMap ended?

theorem endings_eq (events : List (Event K)) :
    endings events = (marks events).filterMap fun mark =>
      match mark with
      | .started _ => none
      | .ended target => some target := by
  rw [endings, marks, List.filterMap_filterMap]
  congr 1
  funext event
  cases event <;> rfl

theorem endings_of_unmarked {events : List (Event K)} (unmarked : marks events = []) :
    endings events = [] := by
  rw [endings_eq, unmarked]
  rfl

end Event

open Event (endings marks)

variable [Scalar K]

namespace Workspace

/-! ## Operations of the workspace -/

theorem removeDock_ok (ws : Workspace K) (handle : DockHandle) :
    ∃ removed, (ws.removeDock handle).result = .ok removed := by
  rcases ws.removeDock_eq handle with missing | ⟨dock, root, dissolved, removed, -⟩
  · exact ⟨none, congrArg (·.result) missing⟩
  · exact ⟨some dock, congrArg (·.result) removed⟩

theorem dropDock_ok (ws : Workspace K) (dock : Dock K) (target : DropTarget) :
    ∃ dropped, (ws.dropDock dock target).result = .ok dropped := by
  unfold dropDock
  split
  · unfold addTab
    split
    · exact ⟨false, rfl⟩
    · exact ⟨true, rfl⟩
  · unfold splitBy
    split
    · exact ⟨false, rfl⟩
    · exact ⟨true, rfl⟩

theorem moveDock_ok (ws : Workspace K) (handle : DockHandle) (target : DropTarget) :
    ∃ moved, (ws.moveDock handle target).result = .ok moved := by
  obtain ⟨removed, taken⟩ := ws.removeDock_ok handle
  rcases ws.moveDock_cases handle target with ⟨-, nothing⟩ | ⟨-, -, moves⟩
  · rw [nothing]
    exact ⟨false, rfl⟩
  · rw [moves]
    simp only [Outcome.andThen, taken]
    cases removed with
    | none => exact ⟨false, rfl⟩
    | some dock => exact dropDock_ok _ dock target

end Workspace

/-! ## Drop targets -/

theorem Area.Sound.dropTarget?_ok {regime : Regime K} {config : Config K} {next : Int}
    {area : Area K} (sound : area.Sound regime config next) (p : Point K) :
    ∃ found, area.dropTarget? p = .ok found := by
  induction sound with
  | @container panel shown header edge room =>
    rw [Area.dropTarget?, Container.dropTarget?]
    split
    · simp only [Container.activeDock, List.getElem?_eq_getElem shown]
      exact ⟨_, rfl⟩
    · exact ⟨none, rfl⟩
  | @split frame children ratios room placed known each ih =>
    rw [Area.dropTarget?, dropTargetIn_eq]
    cases first : children.find? fun child => p ∈ child.rect with
    | none => exact ⟨none, rfl⟩
    | some child => exact ih child (List.mem_of_find?_eq_some first)

theorem Workspace.Sound.dropTarget?_ok {regime : Regime K} {ws : Workspace K}
    (sound : ws.Sound regime) (p : Point K) : ∃ found, ws.dropTarget? p = .ok found := by
  unfold Workspace.dropTarget?
  cases same : ws.root with
  | none => exact ⟨none, rfl⟩
  | some root => exact (sound.tree root same).1.dropTarget?_ok p

omit [Scalar K] in
theorem Workspace.handle_of_findSplit? {ws : Workspace K} {handle : SplitHandle}
    {split : Split K} (found : ws.findSplit? handle = some split) : split.handle = handle := by
  obtain ⟨root, -, search⟩ := Option.bind_eq_some_iff.mp found
  exact (Area.findSplit?_leads search).1

theorem Workspace.Sound.of_findSplit? {regime : Regime K} {ws : Workspace K}
    (sound : ws.Sound regime) {handle : SplitHandle} {split : Split K}
    (found : ws.findSplit? handle = some split) :
    split.toArea.Sound regime ws.config ws.nextSplit := by
  obtain ⟨root, same, search⟩ := Option.bind_eq_some_iff.mp found
  obtain ⟨-, path, leads, -⟩ := Area.findSplit?_leads search
  exact leads.sound_target (sound.tree root same).1

theorem Workspace.Sound.findSplit?_count {regime : Regime K} {ws : Workspace K}
    (sound : ws.Sound regime) {handle : SplitHandle} {split : Split K}
    (found : ws.findSplit? handle = some split) :
    split.children.length = split.ratios.length :=
  (sound.of_findSplit? found).count

namespace Session

/-! ## Motion and release -/

/-- The split whose boundary is dragged is still there, but has too few children
left to have that boundary. -/
def LostBoundary (s : Session K) (index : Nat) (split : Split K) : Prop :=
  ∃ direction, s.target? = some (.sizer split.handle index direction) ∧
    s.workspace.findSplit? split.handle = some split ∧ split.children.length ≤ index + 1

theorem gesture_of_target {regime : Regime K} {s : Session K} (sound : s.Sound regime)
    {target : DragTarget} (dragged : s.target? = some target) :
    ∃ last, s.gesture = some ⟨target.gestureKind, target, last⟩ := by
  obtain ⟨gesture, held, rfl⟩ := Option.map_eq_some_iff.mp dragged
  refine ⟨gesture.last, ?_⟩
  rw [held, ← sound.kind gesture held]

omit [Scalar K] in
theorem target_of_boundary? {gesture : Gesture K} {handle : SplitHandle} {index : Nat}
    (resizes : gesture.boundary? = some (handle, index)) :
    ∃ direction, gesture.target = .sizer handle index direction := by
  unfold Gesture.boundary? at resizes
  split at resizes
  · rename_i direction _ dragged
    cases resizes
    exact ⟨direction, dragged⟩
  · cases resizes

theorem motion_of_lost {s : Session K} (sound : s.Sound Regime.any) {index : Nat}
    {split : Split K} (lost : s.LostBoundary index split) (p : Point K) :
    s.motion p =
      .refuse s (.boundaryIndex index split.handle (split.children.length - 1)) := by
  obtain ⟨direction, dragged, found, few⟩ := lost
  obtain ⟨last, held⟩ := gesture_of_target sound dragged
  have count := sound.workspace.findSplit?_count found
  have refused : s.workspace.changeRatio split.handle index ⟨last.x - p.x, last.y - p.y⟩ =
      .refuse s.workspace
        (.boundaryIndex index split.handle (split.children.length - 1)) := by
    have outside : ¬ ((0 : Int) ≤ index ∧ (index : Int) + 1 < split.ratios.length) := by omega
    simp only [Workspace.changeRatio, found, Split.changeRatio, if_neg outside, Outcome.refuse,
      count]
  rw [motion_of_sizer held, refused]
  rfl

theorem release_of_lost {s : Session K} (sound : s.Sound Regime.any) {index : Nat}
    {split : Split K} (lost : s.LostBoundary index split) (p : Point K) :
    s.release p =
      .refuse s (.boundaryIndex index split.handle (split.children.length - 1)) := by
  obtain ⟨last, held⟩ := gesture_of_target sound lost.choose_spec.1
  rw [release_of_held held, motion_of_lost sound lost p]
  rfl

/-- Unless its boundary is lost, a gesture follows the pointer, and it goes on. -/
theorem motion_of_kept {s : Session K} (sound : s.workspace.Sound Regime.any)
    (kept : ∀ index split, ¬ s.LostBoundary index split) {gesture : Gesture K}
    (held : s.gesture = some gesture) (p : Point K) :
    ∃ ws events, s.motion p = .publish ⟨ws, some { gesture with last := p }⟩ () events ∧
      ws.Sound Regime.any := by
  rcases s.motion_cases p with ⟨idle, -⟩ | ⟨_, same, ⟨-, still⟩ |
    ⟨handle, index, resized, ⟨split, found, few, -⟩ | ⟨ws, answer, events, changed, moved⟩⟩⟩
  · rw [held] at idle
    cases idle
  · cases held.symm.trans same
    exact ⟨s.workspace, [], still, sound⟩
  · cases held.symm.trans same
    exfalso
    obtain rfl := Workspace.handle_of_findSplit? found
    obtain ⟨direction, dragged⟩ := target_of_boundary? resized
    refine kept index split ⟨direction, ?_, found, ?_⟩
    · rw [target?, held, Option.map_some, dragged]
    · rwa [sound.findSplit?_count found]
  · cases held.symm.trans same
    have edited := sound.changeRatio handle index (show Regime.any.Shift
      ⟨gesture.last.x - p.x, gesture.last.y - p.y⟩ from trivial)
    rw [changed] at edited
    exact ⟨ws, events, moved, edited⟩

theorem drop_ok {s : Session K} (sound : s.workspace.Sound Regime.any) (gesture : Gesture K)
    (p : Point K) :
    (∃ changed, (s.drop gesture p).result = .ok changed) ∧
      (s.drop gesture p).state.gesture = s.gesture := by
  rcases s.drop_cases gesture p with
    ⟨-, missed⟩ | ⟨error, unknown, -⟩ | ⟨handle, place, -, -, moved⟩
  · rw [missed]
    exact ⟨⟨false, rfl⟩, rfl⟩
  · obtain ⟨found, answered⟩ := sound.dropTarget?_ok p
    rw [answered] at unknown
    cases unknown
  · rw [moved]
    exact ⟨s.workspace.moveDock_ok handle place, rfl⟩

/-- Once its last motion has gone through, a release ends the operation in progress. -/
theorem release_of_moved {s : Session K} {p : Point K}
    (sound : (s.motion p).state.workspace.Sound Regime.any)
    (moved : (s.motion p).result = .ok ()) :
    (∃ changed, (s.release p).result = .ok changed) ∧
      (s.release p).state.gesture = none ∧
      marks (s.release p).events = s.target?.toList.map .ended := by
  cases held : s.gesture with
  | none => simp [release_of_idle held, held, Outcome.quiet, target?]
  | some gesture =>
    have quiet := s.motion_marks p
    rw [release_of_held held]
    simp only [Outcome.andThen, moved]
    generalize (s.motion p).state.workspace = ws at sound
    obtain ⟨⟨changed, ok⟩, idle⟩ := drop_ok (s := ⟨ws, none⟩) sound gesture p
    have still := drop_marks ⟨ws, none⟩ gesture p
    simp only [ok, Outcome.publish, Event.marks_append, quiet, still, idle, target?, held]
    exact ⟨⟨changed, rfl⟩, trivial, rfl⟩

theorem motion_ok {s : Session K} (sound : s.workspace.Sound Regime.any)
    (kept : ∀ index split, ¬ s.LostBoundary index split) (p : Point K) :
    (s.motion p).result = .ok () ∧ (s.motion p).state.workspace.Sound Regime.any := by
  cases held : s.gesture with
  | none =>
    rw [motion_of_idle held]
    exact ⟨rfl, sound⟩
  | some gesture =>
    obtain ⟨ws, events, moved, still⟩ := motion_of_kept sound kept held p
    rw [moved]
    exact ⟨rfl, still⟩

theorem release_of_kept {s : Session K} (sound : s.workspace.Sound Regime.any)
    (kept : ∀ index split, ¬ s.LostBoundary index split) (p : Point K) :
    (∃ changed, (s.release p).result = .ok changed) ∧
      (s.release p).state.gesture = none ∧
      marks (s.release p).events = s.target?.toList.map .ended := by
  obtain ⟨moved, still⟩ := motion_ok sound kept p
  exact release_of_moved still moved

/-- A motion or a release of a reachable session fails exactly when a boundary is
dragged that its split has lost; then nothing happens, so the gesture cannot be
finished. Otherwise a release ends the operation in progress, and says so once. -/
theorem drag_finishes_unless_lost (s : Session K) (reachable : s.Reachable) (p : Point K) :
    (∀ index split, s.LostBoundary index split →
      s.motion p = .refuse s (.boundaryIndex index split.handle (split.children.length - 1)) ∧
      s.release p =
        .refuse s (.boundaryIndex index split.handle (split.children.length - 1))) ∧
    ((∀ index split, ¬ s.LostBoundary index split) →
      (s.motion p).result = .ok () ∧ endings (s.motion p).events = [] ∧
      (∃ changed, (s.release p).result = .ok changed) ∧
      (s.release p).state.isActive = false ∧
      endings (s.release p).events = s.target?.toList) := by
  have sound := reachable.sound
  constructor
  · intro index split lost
    exact ⟨motion_of_lost sound lost p, release_of_lost sound lost p⟩
  · intro kept
    obtain ⟨answered, idle, marked⟩ := release_of_kept sound.workspace kept p
    have quiet := Event.endings_of_unmarked (s.motion_marks p)
    refine ⟨(motion_ok sound.workspace kept p).1, quiet, answered, ?_, ?_⟩
    · rw [isActive, idle]
      rfl
    · rw [Event.endings_eq, marked]
      cases s.target? <;> rfl

def dragging : List (Action Float) :=
  let dock (value : Int) : Dock Float := ⟨⟨value⟩, .null, none⟩
  [.placeFirst (dock 1),
    .splitBy .vertical ⟨1⟩ (dock 2) false none,
    .splitBy .horizontal ⟨2⟩ (dock 3) false none,
    .splitBy .vertical ⟨2⟩ (dock 4) false none,
    .removeDock ⟨3⟩,
    .press ⟨750.0, 100.0⟩]

def dragged : Session Float := (start (.empty ⟨0.0, 0.0, 1000.0, 800.0⟩ .standard)).run dragging

/-- The drag goes on while the panel between the two boundaries is closed. -/
def shrunk : Session Float :=
  (start (.empty ⟨0.0, 0.0, 1000.0, 800.0⟩ .standard)).run (dragging ++ [.removeDock ⟨4⟩])

theorem dragged_reachable : dragged.Reachable := ⟨_, _, .empty _ _, rfl⟩

theorem shrunk_reachable : shrunk.Reachable := ⟨_, _, .empty _ _, rfl⟩

theorem dragged_kept : ∀ index split, ¬ dragged.LostBoundary index split := by
  rintro index split ⟨direction, dragging, found, few⟩
  have target : dragged.target? = some (.sizer ⟨1⟩ 1 .vertical) := by decide +kernel
  have present : ((dragged.workspace.findSplit? ⟨1⟩).map fun split => split.children.length) =
      some 3 := by decide +kernel
  rw [target] at dragging
  injection dragging with same
  injection same with named position
  rw [← named] at found
  rw [found] at present
  have three : split.children.length = 3 := Option.some.inj present
  omega

theorem shrunk_lost :
    ∃ split, shrunk.LostBoundary 1 split ∧ split.handle = ⟨1⟩ ∧ split.children.length = 2 := by
  have target : shrunk.target? = some (.sizer ⟨1⟩ 1 .vertical) := by decide +kernel
  have present : ((shrunk.workspace.findSplit? ⟨1⟩).map fun split => split.children.length) =
      some 2 := by decide +kernel
  obtain ⟨split, found, two⟩ := Option.map_eq_some_iff.mp present
  have named := Workspace.handle_of_findSplit? found
  refine ⟨split, ⟨.vertical, ?_, ?_, Nat.le_of_eq two⟩, named, two⟩
  · rw [named]
    exact target
  · rw [named]
    exact found

theorem drag_finishes_unless_lost_at_both :
    (dragged.Reachable ∧ (dragged.release ⟨740.0, 100.0⟩).state.isActive = false) ∧
    (shrunk.Reachable ∧
      shrunk.motion ⟨740.0, 100.0⟩ = .refuse shrunk (.boundaryIndex 1 ⟨1⟩ 1) ∧
      shrunk.release ⟨740.0, 100.0⟩ = .refuse shrunk (.boundaryIndex 1 ⟨1⟩ 1)) := by
  obtain ⟨split, lost, named, two⟩ := shrunk_lost
  have finished := (drag_finishes_unless_lost dragged dragged_reachable ⟨740.0, 100.0⟩).2
    dragged_kept
  have refused := (drag_finishes_unless_lost shrunk shrunk_reachable ⟨740.0, 100.0⟩).1 1 split lost
  rw [named, two] at refused
  exact ⟨⟨dragged_reachable, finished.2.2.2.1⟩, shrunk_reachable, refused⟩

end Session

end DockLayout
