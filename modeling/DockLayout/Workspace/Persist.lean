import DockLayout.Tree.Persist
import DockLayout.Workspace.Edit

/-!
# Workspaces as JSON

A workspace is written as a format version and its tree. Reading one back gives
every container the settings of the new configuration, and starts the handles
above the greatest that the tree contains.
-/

set_option autoImplicit false

namespace DockLayout

namespace Word

def version : Text := .ofChars ['v', 'e', 'r', 's', 'i', 'o', 'n']

def root : Text := .ofChars ['r', 'o', 'o', 't']

end Word

variable {K : Type}

namespace Area

mutual

def configure (config : Config K) : Area K → Area K
  | .container panel =>
      .container { panel with
        headerHeight := config.headerHeight, dropEdgeFraction := config.dropEdgeFraction }
  | .split frame children => .split frame (configureEach config children)

def configureEach (config : Config K) : List (Area K) → List (Area K)
  | [] => []
  | area :: rest => area.configure config :: configureEach config rest

end

theorem configureEach_eq (config : Config K) (areas : List (Area K)) :
    configureEach config areas = areas.map (configure config) := by
  induction areas with
  | nil => rfl
  | cons area rest ih => simp [configureEach, ih]

end Area

namespace Workspace

def formatVersion : Int := 1

def encode (ws : Workspace K) : Json K :=
  .obj [
    (Word.version, .int formatVersion),
    (Word.root, match ws.root with
      | none => .null
      | some root => root.encode)]

def nextAfter (values : List Int) : Int := values.foldl max 0 + 1

variable [Scalar K]

/-- A version counts as the accepted one if it is equal to it as a number. -/
def isFormatVersion : Json K → Bool
  | .int value => value == formatVersion
  | .real value => value == 1
  | .bool value => value
  | _ => false

def rootData (value : Json K) : Except (LayoutError K) (Option (Json K)) :=
  match value with
  | .obj entries =>
      let version := (Json.find? Word.version entries).getD .null
      if isFormatVersion version then
        .ok (match Json.find? Word.root entries with
          | none => none
          | some .null => none
          | some data => some data)
      else .error (.version version)
  | _ => .error (.workspaceData value)

def decodeRoot : Option (Json K) → Except (LayoutError K) (Option (Area K))
  | none => .ok none
  | some data => (Area.decode data).map some

def around (config : Config K) (root : Option (Area K)) : Workspace K :=
  let ws : Workspace K := { empty .zero config with root := root.map (Area.configure config) }
  { ws with
    nextSplit := nextAfter ((Area.splitHandlesIn ws.areas).map SplitHandle.value)
    nextDock := nextAfter ((Area.dockHandlesIn ws.areas).map DockHandle.value) }

/-- Reads a workspace. Without a rectangle its areas keep the zero rectangle and
only the loading itself is published. -/
def decode (value : Json K) (rect : Option (Rect K)) (config : Config K) :
    Report K (Workspace K) :=
  match (rootData value).bind decodeRoot with
  | .error error => { result := .error error, events := [] }
  | .ok root =>
      let loaded := around config root
      match rect with
      | none => { result := .ok loaded, events := [.layoutLoaded loaded.root] }
      | some rect =>
          let placed := loaded.updateRect rect
          { result := .ok placed.state
            events := placed.events ++ [.layoutLoaded placed.state.root] }

end Workspace

end DockLayout
