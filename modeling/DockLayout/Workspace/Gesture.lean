import DockLayout.Workspace.Edit

/-!
# Pointer gestures

A gesture runs from a press to a release. On a boundary it resizes while the
pointer moves; on a tab it does nothing until the release, which moves the dock
to the drop target under the pointer.
-/

set_option autoImplicit false

namespace DockLayout

inductive GestureKind where
  | resize
  | moveDock
deriving DecidableEq

/-- A drag in progress. Its kind is settled by the press, and its target stays the one that
was pressed; `last` is where the pointer was last. -/
structure Gesture (K : Type) where
  kind : GestureKind
  target : DragTarget
  last : Point K

def DragTarget.gestureKind : DragTarget → GestureKind
  | .sizer .. => .resize
  | .tab _ => .moveDock

namespace Gesture

variable {K : Type}

def boundary? (gesture : Gesture K) : Option (SplitHandle × Nat) :=
  match gesture.kind, gesture.target with
  | .resize, .sizer handle index _ => some (handle, index)
  | _, _ => none

def dock? (gesture : Gesture K) : Option DockHandle :=
  match gesture.kind, gesture.target with
  | .moveDock, .tab handle => some handle
  | _, _ => none

end Gesture

structure Session (K : Type) where
  workspace : Workspace K
  gesture : Option (Gesture K)

namespace Session

variable {K : Type}

def start (workspace : Workspace K) : Session K := { workspace, gesture := none }

def isActive (s : Session K) : Bool := s.gesture.isSome

def target? (s : Session K) : Option DragTarget := s.gesture.map Gesture.target

def kind? (s : Session K) : Option GestureKind := s.gesture.map Gesture.kind

variable [Scalar K]

def edit {α : Type} (s : Session K) (outcome : Outcome K (Workspace K) α) :
    Outcome K (Session K) α :=
  outcome.within fun workspace => { s with workspace }

/-- Starts a gesture unless one is in progress or there is nothing to drag. -/
def press (s : Session K) (p : Point K) : Outcome K (Session K) Bool :=
  match s.gesture with
  | some _ => .quiet s false
  | none =>
      match s.workspace.dragTarget? p with
      | none => .quiet s false
      | some target =>
          .publish { s with gesture := some { kind := target.gestureKind, target, last := p } } true
            [.operationStarted target]

/-- The displacement is handed on reversed, since a boundary moves against the
displacement it is given; so it follows the pointer. -/
def motion (s : Session K) (p : Point K) : Outcome K (Session K) Unit :=
  match s.gesture with
  | none => .quiet s ()
  | some gesture =>
      let arrive := fun (moved : Session K) =>
        { moved with gesture := some { gesture with last := p } }
      match gesture.boundary? with
      | none => .quiet (arrive s) ()
      | some (handle, index) =>
          let delta : Point K := ⟨gesture.last.x - p.x, gesture.last.y - p.y⟩
          (s.edit (s.workspace.changeRatio handle index delta)).andThen fun moved _ =>
            .quiet (arrive moved) ()

/-- What a release does once the gesture is over. -/
def drop (s : Session K) (gesture : Gesture K) (p : Point K) : Outcome K (Session K) Bool :=
  match gesture.dock? with
  | none => .quiet s false
  | some handle =>
      match s.workspace.dropTarget? p with
      | .error error => .refuse s error
      | .ok none => .quiet s false
      | .ok (some place) => s.edit (s.workspace.moveDock handle place)

/-- Ends the gesture after a last motion. The answer says whether the release
changed the layout. -/
def release (s : Session K) (p : Point K) : Outcome K (Session K) Bool :=
  match s.gesture with
  | none => .quiet s false
  | some gesture =>
      (s.motion p).andThen fun moved _ =>
        (({ moved with gesture := none } : Session K).drop gesture p).andThen
          fun dropped changed => .publish dropped changed [.operationEnded gesture.target]

def cancel (s : Session K) : Outcome K (Session K) Unit :=
  match s.gesture with
  | none => .quiet s ()
  | some gesture => .publish { s with gesture := none } () [.operationEnded gesture.target]

end Session

end DockLayout
