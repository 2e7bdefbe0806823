import DockLayout.Tree.Area

/-!
# Events and outcomes

Every change is published as an event. An operation answers with a `Report`,
and one that works on a state with an `Outcome`, which holds the state that is
left whether the operation succeeded or not.
-/

set_option autoImplicit false

namespace DockLayout

inductive Event (K : Type) where
  | dockAdded (dock : Dock K)
  | dockRemoved (dock : Dock K)
  | splitCreated (handle : SplitHandle)
  | splitRemoved (handle : SplitHandle)
  | ratioChanged (handle : SplitHandle) (index : Nat) (ratio : K)
  | layoutUpdated (rect : Rect K)
  | layoutLoaded (root : Option (Area K))
  | operationStarted (target : DragTarget)
  | operationEnded (target : DragTarget)

structure Report (K α : Type) where
  result : Except (LayoutError K) α
  events : List (Event K)

/-- A report together with the state after the operation. -/
structure Outcome (K σ α : Type) extends Report K α where
  state : σ

namespace Outcome

variable {K σ τ α β : Type}

def quiet (state : σ) (answer : α) : Outcome K σ α :=
  { result := .ok answer, events := [], state }

def publish (state : σ) (answer : α) (events : List (Event K)) : Outcome K σ α :=
  { result := .ok answer, events, state }

def refuse (state : σ) (error : LayoutError K) : Outcome K σ α :=
  { result := .error error, events := [], state }

/-- Continues with the state and answer of a success; a failure stands. -/
def andThen (first : Outcome K σ α) (next : σ → α → Outcome K σ β) : Outcome K σ β :=
  match first.result with
  | .error error => { result := .error error, events := first.events, state := first.state }
  | .ok answer =>
      let second := next first.state answer
      { result := second.result, events := first.events ++ second.events, state := second.state }

def within (outcome : Outcome K σ α) (embed : σ → τ) : Outcome K τ α :=
  { result := outcome.result, events := outcome.events, state := embed outcome.state }

def answering (outcome : Outcome K σ α) (f : α → β) : Outcome K σ β :=
  { result := outcome.result.map f, events := outcome.events, state := outcome.state }

end Outcome

end DockLayout
