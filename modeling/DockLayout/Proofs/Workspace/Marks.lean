import DockLayout.Proofs.Workspace.Steps

/-!
# Marks of operations

The beginnings and the ends of pointer operations are marks among the events. A workspace
knows nothing of operations: none of its own operations publishes a mark.
-/

set_option autoImplicit false

namespace DockLayout

variable {K : Type}

inductive Mark where
  | started (target : DragTarget)
  | ended (target : DragTarget)
deriving DecidableEq

namespace Event

def mark? : Event K → Option Mark
  | .operationStarted target => some (.started target)
  | .operationEnded target => some (.ended target)
  | _ => none

def marks (events : List (Event K)) : List Mark := events.filterMap mark?

@[simp] theorem marks_nil : marks ([] : List (Event K)) = [] := rfl

@[simp] theorem marks_append (first second : List (Event K)) :
    marks (first ++ second) = marks first ++ marks second :=
  List.filterMap_append

end Event

open Event (marks)

theorem Outcome.marks_andThen {σ α β : Type} {first : Outcome K σ α}
    {next : σ → α → Outcome K σ β} (unmarked : marks first.events = [])
    (onward : ∀ answer, marks (next first.state answer).events = []) :
    marks (first.andThen next).events = [] := by
  obtain ⟨⟨result, events⟩, state⟩ := first
  cases result with
  | error error => exact unmarked
  | ok answer =>
    rw [andThen, Event.marks_append, unmarked]
    exact onward answer

namespace Workspace

theorem placeFirst_marks (ws : Workspace K) (dock : Dock K) :
    marks (ws.placeFirst dock).events = [] := by
  unfold placeFirst
  cases ws.root <;> rfl

theorem addTab_marks (ws : Workspace K) (target : DockHandle) (dock : Dock K) :
    marks (ws.addTab target dock).events = [] := by
  unfold addTab
  cases ws.locate? target <;> rfl

theorem setActiveDock_marks (ws : Workspace K) (handle : DockHandle) :
    marks (ws.setActiveDock handle).events = [] := by
  unfold setActiveDock
  cases ws.locate? handle <;> rfl

variable [Scalar K]

theorem changeRatio_marks (ws : Workspace K) (handle : SplitHandle) (index : Int)
    (delta : Point K) : marks (ws.changeRatio handle index delta).events = [] := by
  rcases ws.changeRatio_cases handle index delta with
    ⟨-, missed⟩ | ⟨split, -, -, refused⟩ | ⟨split, moved, root, path, -, -, -, -, -, changed⟩
  · rw [missed]
    rfl
  · rw [refused]
    rfl
  · rw [changed]
    rfl

theorem splitBy_marks (ws : Workspace K) (direction : Direction) (target : DockHandle)
    (dock : Dock K) (before : Bool) (ratio : Option K) :
    marks (ws.splitBy direction target dock before ratio).events = [] := by
  unfold splitBy
  cases ws.locate? target <;> rfl

theorem dropDock_marks (ws : Workspace K) (dock : Dock K) (target : DropTarget) :
    marks (ws.dropDock dock target).events = [] := by
  unfold dropDock
  cases target.zone.direction? with
  | none => exact ws.addTab_marks target.handle dock
  | some direction => exact ws.splitBy_marks direction target.handle dock _ none

theorem removeDock_marks (ws : Workspace K) (handle : DockHandle) :
    marks (ws.removeDock handle).events = [] := by
  rcases ws.removeDock_eq handle with missing | ⟨dock, root, dissolved, removed, gone⟩
  · rw [missing]
    rfl
  · rw [removed, Outcome.publish, Event.marks_append, marks,
      Event.filterMap_of_gone Event.mark? (fun _ => rfl) gone]
    rfl

theorem moveDock_marks (ws : Workspace K) (handle : DockHandle) (target : DropTarget) :
    marks (ws.moveDock handle target).events = [] := by
  rcases ws.moveDock_cases handle target with ⟨-, nothing⟩ | ⟨-, -, moves⟩
  · rw [nothing]
    rfl
  · rw [moves]
    refine Outcome.marks_andThen (ws.removeDock_marks handle) fun removed => ?_
    cases removed with
    | none => rfl
    | some dock => exact dropDock_marks _ dock target

end Workspace

namespace Session

variable [Scalar K]

theorem motion_marks (s : Session K) (p : Point K) : marks (s.motion p).events = [] := by
  rcases s.motion_cases p with ⟨-, idle⟩ | ⟨gesture, -, ⟨-, still⟩ |
    ⟨handle, index, -, ⟨split, -, -, refused⟩ | ⟨ws, answer, events, changed, moved⟩⟩⟩
  · rw [idle]
    rfl
  · rw [still]
    rfl
  · rw [refused]
    rfl
  · have unmarked := s.workspace.changeRatio_marks handle index
      ⟨gesture.last.x - p.x, gesture.last.y - p.y⟩
    rw [changed] at unmarked
    rw [moved]
    exact unmarked

theorem drop_marks (s : Session K) (gesture : Gesture K) (p : Point K) :
    marks (s.drop gesture p).events = [] := by
  rcases s.drop_cases gesture p with
    ⟨-, missed⟩ | ⟨error, -, refused⟩ | ⟨handle, place, -, -, moved⟩
  · rw [missed]
    rfl
  · rw [refused]
    rfl
  · rw [moved]
    exact s.workspace.moveDock_marks handle place

end Session

end DockLayout
