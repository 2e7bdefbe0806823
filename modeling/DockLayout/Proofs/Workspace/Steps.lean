import DockLayout.Proofs.Workspace.GroupEdits
import DockLayout.Workspace.Gesture

/-!
# Moves and gestures by cases

All that a move of a dock and each step of a gesture can come to, with what it depends on.
What holds of them is shown from these cases, and not from how they are computed.
-/

set_option autoImplicit false

namespace DockLayout

variable {K : Type}

theorem Outcome.quiet_andThen {σ α β : Type} (state : σ) (answer : α)
    (next : σ → α → Outcome K σ β) :
    (quiet state answer : Outcome K σ α).andThen next = next state answer := rfl

theorem Outcome.andThen_holds {σ α β : Type} {P : σ → Prop} {first : Outcome K σ α}
    {next : σ → α → Outcome K σ β} (reached : P first.state)
    (onward : ∀ state answer, P state → P (next state answer).state) :
    P (first.andThen next).state := by
  obtain ⟨⟨result, events⟩, state⟩ := first
  cases result with
  | error error => exact reached
  | ok answer => exact onward state answer reached

theorem Workspace.moveDock_cases [Scalar K] (ws : Workspace K) (handle : DockHandle)
    (target : DropTarget) :
    ((handle = target.handle ∨ ws.findContainer? target.handle = none) ∧
      ws.moveDock handle target = .quiet ws false) ∨
    handle ≠ target.handle ∧ (ws.findContainer? target.handle).isSome = true ∧
      ws.moveDock handle target = (ws.removeDock handle).andThen fun rest removed =>
        match removed with
        | none => .quiet rest false
        | some dock => rest.dropDock dock target := by
  unfold moveDock
  split
  · rename_i same
    exact .inl ⟨.inl same, rfl⟩
  · rename_i different
    cases ws.findContainer? target.handle with
    | none => exact .inl ⟨.inr rfl, rfl⟩
    | some panel => exact .inr ⟨different, rfl, rfl⟩

namespace Session

variable [Scalar K]

theorem press_cases (s : Session K) (p : Point K) :
    ((s.gesture ≠ none ∨ s.workspace.dragTarget? p = none) ∧ s.press p = .quiet s false) ∨
    ∃ target, s.gesture = none ∧ s.workspace.dragTarget? p = some target ∧
      s.press p = .publish ⟨s.workspace, some ⟨target.gestureKind, target, p⟩⟩ true
        [.operationStarted target] := by
  unfold press
  cases s.gesture with
  | some gesture => exact .inl ⟨.inl nofun, rfl⟩
  | none =>
    cases s.workspace.dragTarget? p with
    | none => exact .inl ⟨.inr rfl, rfl⟩
    | some target => exact .inr ⟨target, rfl, rfl, rfl⟩

theorem motion_of_idle {s : Session K} (idle : s.gesture = none) (p : Point K) :
    s.motion p = .quiet s () := by
  rw [motion, idle]

theorem motion_of_tab {s : Session K} {handle : DockHandle} {last : Point K}
    (held : s.gesture = some ⟨.moveDock, .tab handle, last⟩) (p : Point K) :
    s.motion p = .quiet ⟨s.workspace, some ⟨.moveDock, .tab handle, p⟩⟩ () := by
  rw [motion, held]
  rfl

theorem motion_of_sizer {s : Session K} {handle : SplitHandle} {index : Nat}
    {direction : Direction} {last : Point K}
    (held : s.gesture = some ⟨.resize, .sizer handle index direction, last⟩) (p : Point K) :
    s.motion p = (s.edit (s.workspace.changeRatio handle index
      ⟨last.x - p.x, last.y - p.y⟩)).andThen fun moved _ =>
        .quiet ⟨moved.workspace, some ⟨.resize, .sizer handle index direction, p⟩⟩ () := by
  rw [motion, held]
  rfl

/-- A motion finds nothing to move, is refused since the boundary is lost, or takes over what
the change of ratio answers. Unless it is refused, the gesture is at the pointer afterwards. -/
theorem motion_cases (s : Session K) (p : Point K) :
    (s.gesture = none ∧ s.motion p = .quiet s ()) ∨
    ∃ gesture, s.gesture = some gesture ∧
      ((gesture.boundary? = none ∧
        s.motion p = .quiet ⟨s.workspace, some { gesture with last := p }⟩ ()) ∨
      ∃ handle index, gesture.boundary? = some (handle, index) ∧
        ((∃ split, s.workspace.findSplit? handle = some split ∧
            split.ratios.length ≤ index + 1 ∧
            s.motion p =
              .refuse s (.boundaryIndex index split.handle (split.ratios.length - 1))) ∨
          ∃ ws answer events,
            s.workspace.changeRatio handle index
              ⟨gesture.last.x - p.x, gesture.last.y - p.y⟩ = .publish ws answer events ∧
            s.motion p = .publish ⟨ws, some { gesture with last := p }⟩ () events)) := by
  unfold motion
  cases s.gesture with
  | none => exact .inl ⟨rfl, rfl⟩
  | some gesture =>
    refine .inr ⟨gesture, rfl, ?_⟩
    dsimp only
    cases gesture.boundary? with
    | none => exact .inl ⟨rfl, rfl⟩
    | some boundary =>
      obtain ⟨handle, index⟩ := boundary
      refine .inr ⟨handle, index, rfl, ?_⟩
      dsimp only
      rcases s.workspace.changeRatio_cases handle index
          ⟨gesture.last.x - p.x, gesture.last.y - p.y⟩ with
        ⟨-, missed⟩ | ⟨split, found, outside, refused⟩ |
        ⟨split, moved, root, path, -, -, -, -, -, changed⟩
      · rw [missed]
        exact .inr ⟨_, _, _, rfl, rfl⟩
      · rw [refused]
        exact .inl ⟨split, found, by omega, rfl⟩
      · rw [changed]
        exact .inr ⟨_, _, _, rfl, rfl⟩

theorem drop_cases (s : Session K) (gesture : Gesture K) (p : Point K) :
    ((gesture.dock? = none ∨ s.workspace.dropTarget? p = .ok none) ∧
      s.drop gesture p = .quiet s false) ∨
    (∃ error, s.workspace.dropTarget? p = .error error ∧ s.drop gesture p = .refuse s error) ∨
    ∃ handle place, gesture.dock? = some handle ∧
      s.workspace.dropTarget? p = .ok (some place) ∧
      s.drop gesture p = s.edit (s.workspace.moveDock handle place) := by
  unfold drop
  cases gesture.dock? with
  | none => exact .inl ⟨.inl rfl, rfl⟩
  | some handle =>
    rcases s.workspace.dropTarget? p with error | _ | place
    · exact .inr (.inl ⟨error, rfl, rfl⟩)
    · exact .inl ⟨.inr rfl, rfl⟩
    · exact .inr (.inr ⟨handle, place, rfl, rfl, rfl⟩)

theorem release_of_idle {s : Session K} (idle : s.gesture = none) (p : Point K) :
    s.release p = .quiet s false := by
  rw [release, idle]

theorem release_of_held {s : Session K} {gesture : Gesture K} (held : s.gesture = some gesture)
    (p : Point K) :
    s.release p = (s.motion p).andThen fun moved _ =>
      (({ moved with gesture := none } : Session K).drop gesture p).andThen
        fun dropped changed => .publish dropped changed [.operationEnded gesture.target] := by
  rw [release, held]

end Session

end DockLayout
