import DockLayout.Workspace.Gesture
import DockLayout.Workspace.Persist

/-!
# Actions

Everything a caller can do to a session, as data, so that a run is a list of
actions.
-/

set_option autoImplicit false

namespace DockLayout

inductive Action (K : Type) where
  | createDock (pluginName : Json K) (pluginData : Option (List (Json K)))
  | newSplitHandle
  | placeFirst (dock : Dock K)
  | updateRect (rect : Rect K)
  | changeRatio (handle : SplitHandle) (index : Int) (delta : Point K)
  | splitBy (direction : Direction) (target : DockHandle) (dock : Dock K) (before : Bool)
      (ratio : Option K)
  | addTab (target : DockHandle) (dock : Dock K)
  | dropDock (dock : Dock K) (target : DropTarget)
  | removeDock (handle : DockHandle)
  | moveDock (handle : DockHandle) (target : DropTarget)
  | setActiveDock (handle : DockHandle)
  | press (p : Point K)
  | motion (p : Point K)
  | release (p : Point K)
  | cancel

inductive Answer (K : Type) where
  | done
  | flag (value : Bool)
  | dock (dock : Option (Dock K))
  | splitHandle (handle : SplitHandle)

namespace Session

variable {K : Type} [Scalar K]

def perform (s : Session K) : Action K → Outcome K (Session K) (Answer K)
  | .createDock pluginName pluginData =>
      let (dock, workspace) := s.workspace.createDock pluginName pluginData
      .quiet { s with workspace } (.dock dock)
  | .newSplitHandle =>
      let (handle, workspace) := s.workspace.newSplitHandle
      .quiet { s with workspace } (.splitHandle handle)
  | .placeFirst dock => (s.edit (s.workspace.placeFirst dock)).answering fun _ => .done
  | .updateRect rect => (s.edit (s.workspace.updateRect rect)).answering fun _ => .done
  | .changeRatio handle index delta =>
      (s.edit (s.workspace.changeRatio handle index delta)).answering .flag
  | .splitBy direction target dock before ratio =>
      (s.edit (s.workspace.splitBy direction target dock before ratio)).answering .flag
  | .addTab target dock => (s.edit (s.workspace.addTab target dock)).answering .flag
  | .dropDock dock target => (s.edit (s.workspace.dropDock dock target)).answering .flag
  | .removeDock handle => (s.edit (s.workspace.removeDock handle)).answering .dock
  | .moveDock handle target => (s.edit (s.workspace.moveDock handle target)).answering .flag
  | .setActiveDock handle => (s.edit (s.workspace.setActiveDock handle)).answering .flag
  | .press p => (s.press p).answering .flag
  | .motion p => (s.motion p).answering fun _ => .done
  | .release p => (s.release p).answering .flag
  | .cancel => s.cancel.answering fun _ => .done

/-- The state after a list of actions, failed ones included. -/
def run (s : Session K) (actions : List (Action K)) : Session K :=
  actions.foldl (fun state action => (state.perform action).state) s

def history (s : Session K) : List (Action K) → List (Event K)
  | [] => []
  | action :: rest =>
      let outcome := s.perform action
      outcome.events ++ history outcome.state rest

end Session

end DockLayout
