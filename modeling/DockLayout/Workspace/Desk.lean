import DockLayout.Event.Line
import DockLayout.Json.Reader
import DockLayout.Json.Writer
import DockLayout.Workspace.Action

/-!
# Desks

A desk is a session on doubles with an archive of saved layouts and a log. The
log is off at first, goes on with the first workspace that is made with debug
set, and stays on.
-/

set_option autoImplicit false

namespace DockLayout

def Workspace.dump (ws : Workspace Float) : String := ws.encode.dump

structure Desk where
  session : Session Float
  /-- Saved layouts by name. -/
  archive : List (Text × Text)
  logging : Bool

structure DeskReport (α : Type) extends Report Float α where
  lines : List String

namespace Desk

def start (rect : Rect Float) (config : Config Float) : Desk where
  session := .start (.empty rect config)
  archive := []
  logging := config.debug

def logged {α : Type} (desk : Desk) (report : Report Float α) : DeskReport α :=
  { result := report.result, events := report.events
    lines := if desk.logging then report.events.map Event.line else [] }

def perform (desk : Desk) (action : Action Float) : DeskReport (Answer Float) × Desk :=
  let outcome := desk.session.perform action
  (desk.logged outcome.toReport, { desk with session := outcome.state })

/-! ## Loading -/

def makesWorkspace (value : Json Float) : Bool := (Workspace.rootData value).toBool

/-- Replaces the session by one on the workspace that the value describes, idle
and with its own configuration. A failure leaves the session alone. -/
def load (desk : Desk) (value : Json Float) (rect : Option (Rect Float))
    (config : Config Float) : DeskReport Unit × Desk :=
  let report := Workspace.decode value rect config
  let desk := { desk with logging := desk.logging || (config.debug && makesWorkspace value) }
  let answered := desk.logged { result := report.result.map fun _ => (), events := report.events }
  match report.result with
  | .error _ => (answered, desk)
  | .ok workspace => (answered, { desk with session := .start workspace })

def loadText (desk : Desk) (text : Text) (rect : Option (Rect Float)) (config : Config Float) :
    DeskReport Unit × Desk :=
  match Json.ofText text with
  | .error error => (desk.logged { result := .error (.text error), events := [] }, desk)
  | .ok value => desk.load value rect config

def reload (desk : Desk) (rect : Option (Rect Float)) (config : Config Float) :
    DeskReport Unit × Desk :=
  desk.loadText (.ofString desk.session.workspace.dump) rect config

/-! ## The archive -/

def save (desk : Desk) (name : Text) : Text × Desk :=
  let text := Text.ofString desk.session.workspace.dump
  (text, { desk with archive := (name, text) :: desk.archive })

def loadSaved (desk : Desk) (name : Text) (rect : Option (Rect Float)) (config : Config Float) :
    DeskReport Unit × Desk :=
  match desk.archive.find? fun entry => entry.1 = name with
  | none => (desk.logged { result := .error (.missingFile name), events := [] }, desk)
  | some (_, text) => desk.loadText text rect config

end Desk

end DockLayout
