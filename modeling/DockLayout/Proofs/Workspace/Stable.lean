import DockLayout.Proofs.Workspace.Reachable

/-!
# Stable properties

A property of workspaces that none of the nine edits takes away survives the
operations that are made of them, every action of a session and every run. Gestures
need no argument of their own: what they do to a workspace, they do through edits.
-/

set_option autoImplicit false

namespace DockLayout

variable {K : Type} [Scalar K]

namespace Workspace

structure Stable (P : Workspace K → Prop) : Prop where
  createDock : ∀ {ws}, P ws → ∀ pluginName pluginData, P (ws.createDock pluginName pluginData).2
  newSplitHandle : ∀ {ws}, P ws → P ws.newSplitHandle.2
  placeFirst : ∀ {ws}, P ws → ∀ dock, P (ws.placeFirst dock).state
  updateRect : ∀ {ws}, P ws → ∀ rect, P (ws.updateRect rect).state
  changeRatio : ∀ {ws}, P ws → ∀ handle index delta, P (ws.changeRatio handle index delta).state
  splitBy : ∀ {ws}, P ws → ∀ direction target dock before ratio,
    P (ws.splitBy direction target dock before ratio).state
  addTab : ∀ {ws}, P ws → ∀ target dock, P (ws.addTab target dock).state
  removeDock : ∀ {ws}, P ws → ∀ handle, P (ws.removeDock handle).state
  setActiveDock : ∀ {ws}, P ws → ∀ handle, P (ws.setActiveDock handle).state

namespace Stable

variable {P : Workspace K → Prop} (stable : Stable P)

include stable

theorem dropDock {ws : Workspace K} (holds : P ws) (dock : Dock K) (target : DropTarget) :
    P (ws.dropDock dock target).state := by
  unfold Workspace.dropDock
  cases target.zone.direction? with
  | none => exact stable.addTab holds target.handle dock
  | some direction => exact stable.splitBy holds direction target.handle dock _ none

theorem moveDock {ws : Workspace K} (holds : P ws) (handle : DockHandle) (target : DropTarget) :
    P (ws.moveDock handle target).state := by
  rcases ws.moveDock_cases handle target with ⟨-, nothing⟩ | ⟨-, -, moves⟩
  · rwa [nothing]
  · rw [moves]
    refine Outcome.andThen_holds (stable.removeDock holds handle) ?_
    intro rest removed reached
    cases removed with
    | none => exact reached
    | some dock => exact stable.dropDock reached dock target

/-! ## Gestures -/

theorem motion {s : Session K} (holds : P s.workspace) (p : Point K) :
    P (s.motion p).state.workspace := by
  rcases s.motion_cases p with ⟨-, idle⟩ | ⟨gesture, -, ⟨-, still⟩ |
    ⟨handle, index, -, ⟨split, -, -, refused⟩ | ⟨ws, answer, events, changed, moved⟩⟩⟩
  · rwa [idle]
  · rwa [still]
  · rwa [refused]
  · have reached := stable.changeRatio holds handle index
      ⟨gesture.last.x - p.x, gesture.last.y - p.y⟩
    rw [changed] at reached
    rwa [moved]

theorem drop {s : Session K} (holds : P s.workspace) (gesture : Gesture K) (p : Point K) :
    P (s.drop gesture p).state.workspace := by
  rcases s.drop_cases gesture p with
    ⟨-, missed⟩ | ⟨error, -, refused⟩ | ⟨handle, place, -, -, moved⟩
  · rwa [missed]
  · rwa [refused]
  · rw [moved]
    exact stable.moveDock holds handle place

theorem release {s : Session K} (holds : P s.workspace) (p : Point K) :
    P (s.release p).state.workspace := by
  cases held : s.gesture with
  | none => rwa [Session.release_of_idle held]
  | some gesture =>
    rw [Session.release_of_held held]
    refine Outcome.andThen_holds (P := fun moved : Session K => P moved.workspace)
      (stable.motion holds p) fun moved _ reached => ?_
    have dropped := stable.drop (s := ⟨moved.workspace, none⟩) reached gesture p
    exact Outcome.andThen_holds (P := fun left : Session K => P left.workspace) dropped
      fun left _ finished => finished

/-! ## Runs -/

theorem perform {s : Session K} (holds : P s.workspace) (action : Action K) :
    P (s.perform action).state.workspace := by
  cases action with
  | createDock pluginName pluginData => exact stable.createDock holds pluginName pluginData
  | newSplitHandle => exact stable.newSplitHandle holds
  | placeFirst dock => exact stable.placeFirst holds dock
  | updateRect rect => exact stable.updateRect holds rect
  | changeRatio handle index delta => exact stable.changeRatio holds handle index delta
  | splitBy direction target dock before ratio =>
    exact stable.splitBy holds direction target dock before ratio
  | addTab target dock => exact stable.addTab holds target dock
  | dropDock dock target => exact stable.dropDock holds dock target
  | removeDock handle => exact stable.removeDock holds handle
  | moveDock handle target => exact stable.moveDock holds handle target
  | setActiveDock handle => exact stable.setActiveDock holds handle
  | press p =>
    change P (s.press p).state.workspace
    rcases s.press_cases p with ⟨-, ignored⟩ | ⟨target, -, -, started⟩
    · rwa [ignored]
    · rwa [started]
  | motion p => exact stable.motion holds p
  | release p => exact stable.release holds p
  | cancel =>
    change P s.cancel.state.workspace
    unfold Session.cancel
    split <;> exact holds

theorem run {s : Session K} (holds : P s.workspace) (actions : List (Action K)) :
    P (s.run actions).workspace := by
  induction actions generalizing s with
  | nil => exact holds
  | cons action rest ih => exact ih (stable.perform holds action)

end Stable

end Workspace

end DockLayout
