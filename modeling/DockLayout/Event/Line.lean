import DockLayout.Event
import DockLayout.Json.Writer

/-!
# Log lines

An event as one line of the log: its topic, and its parameters by name.
-/

set_option autoImplicit false

namespace DockLayout

/-! ## Parameters as the log shows them -/

namespace LogText

def number (x : Float) : String := Decimal.plain.write x

def record (name : String) (fields : List (String × String)) : String :=
  name ++ "(" ++ String.intercalate ", " (fields.map fun field => field.1 ++ "=" ++ field.2) ++ ")"

def splitHandle (handle : SplitHandle) : String :=
  record "SplitHandle" [("value", toString handle.value)]

def dockHandle (handle : DockHandle) : String :=
  record "DockHandle" [("value", toString handle.value)]

def dock (dock : Dock Float) : String :=
  record "Dock" [
    ("handle", dockHandle dock.handle),
    ("plugin_name", dock.pluginName.inMessage),
    ("plugin_data", match dock.pluginData with
      | none => "None"
      | some items => (Json.arr items).inMessage)]

def rect (r : Rect Float) : String :=
  record "Rect" [("x", number r.x), ("y", number r.y), ("width", number r.width),
    ("height", number r.height)]

def direction : Direction → String
  | .horizontal => "<Direction.HORIZONTAL: 1>"
  | .vertical => "<Direction.VERTICAL: 2>"

def target : DragTarget → String
  | .sizer split index axis =>
      record "SplitSizer" [("handle", splitHandle split), ("index", toString index),
        ("direction", direction axis)]
  | .tab handle => record "DockTab" [("handle", dockHandle handle)]

def root : Option (Area Float) → String
  | none => "None"
  | some (.container _) => "<viewdock.area.area_container.Container object>"
  | some (.split ..) => "<viewdock.area.area_split.Split object>"

end LogText

namespace Event

variable {K : Type}

def topic : Event K → String
  | .dockAdded _ => "dock.added"
  | .dockRemoved _ => "dock.removed"
  | .splitCreated _ => "split.created"
  | .splitRemoved _ => "split.removed"
  | .ratioChanged .. => "split.ratio_changed"
  | .layoutUpdated _ => "layout.updated"
  | .layoutLoaded _ => "layout.loaded"
  | .operationStarted _ => "operation.started"
  | .operationEnded _ => "operation.ended"

def parameters : Event Float → List (String × String)
  | .dockAdded dock | .dockRemoved dock => [("dock", LogText.dock dock)]
  | .splitCreated handle | .splitRemoved handle => [("handle", LogText.splitHandle handle)]
  | .ratioChanged handle index ratio =>
      [("handle", LogText.splitHandle handle), ("index", toString index),
        ("ratio", LogText.number ratio)]
  | .layoutUpdated rect => [("rect", LogText.rect rect)]
  | .layoutLoaded root => [("root", LogText.root root)]
  | .operationStarted target | .operationEnded target => [("target", LogText.target target)]

def line (event : Event Float) : String :=
  "EVENT: " ++ event.topic ++ " | " ++
    String.intercalate ", " (event.parameters.map fun entry => entry.1 ++ "=" ++ entry.2)

end Event

end DockLayout
