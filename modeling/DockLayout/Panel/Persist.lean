import DockLayout.Panel.Container

/-!
# Panels as JSON

Handles, directions, docks and containers in a layout file. A container is
written without its rectangle. Reading takes the members in a fixed order and
reports the first that cannot be used.
-/

set_option autoImplicit false

namespace DockLayout

open LayoutError (ofField)

/-! ## Words of the format -/

namespace Word

def type : Text := .ofChars ['t', 'y', 'p', 'e']

def split : Text := .ofChars ['s', 'p', 'l', 'i', 't']

def container : Text := .ofChars ['c', 'o', 'n', 't', 'a', 'i', 'n', 'e', 'r']

def handle : Text := .ofChars ['h', 'a', 'n', 'd', 'l', 'e']

def direction : Text := .ofChars ['d', 'i', 'r', 'e', 'c', 't', 'i', 'o', 'n']

def ratios : Text := .ofChars ['r', 'a', 't', 'i', 'o', 's']

def children : Text := .ofChars ['c', 'h', 'i', 'l', 'd', 'r', 'e', 'n']

def activeDock : Text := .ofChars ['a', 'c', 't', 'i', 'v', 'e', '_', 'd', 'o', 'c', 'k']

def docks : Text := .ofChars ['d', 'o', 'c', 'k', 's']

def pluginName : Text := .ofChars ['p', 'l', 'u', 'g', 'i', 'n', '_', 'n', 'a', 'm', 'e']

def pluginData : Text := .ofChars ['p', 'l', 'u', 'g', 'i', 'n', '_', 'd', 'a', 't', 'a']

end Word

variable {K : Type}

/-! ## Writing -/

def Dock.encode (dock : Dock K) : Json K :=
  .obj [
    (Word.handle, .int dock.handle.value),
    (Word.pluginName, dock.pluginName),
    (Word.pluginData, match dock.pluginData with
      | none => .null
      | some items => .arr items)]

def Container.encode (panel : Container K) : Json K :=
  .obj [
    (Word.type, .str Word.container),
    (Word.activeDock, .int panel.active),
    (Word.docks, .arr (panel.docks.map Dock.encode))]

/-! ## Reading handles, directions and docks -/

/-- A whole number; truth values and whole doubles are none. -/
def SplitHandle.decode : Json K → Except (LayoutError K) SplitHandle
  | .int value => .ok ⟨value⟩
  | value => .error (.splitHandle value)

def DockHandle.decode : Json K → Except (LayoutError K) DockHandle
  | .int value => .ok ⟨value⟩
  | value => .error (.dockHandle value)

def Direction.decode (value : Json K) : Except (LayoutError K) Direction :=
  match value with
  | .str text =>
      match Direction.ofName? text with
      | some direction => .ok direction
      | none => .error (.direction value)
  | _ => .error (.direction value)

def DropZone.decode (value : Json K) : Except (LayoutError K) DropZone :=
  match value with
  | .str text =>
      match DropZone.ofName? text with
      | some zone => .ok zone
      | none => .error (.dropZone value)
  | _ => .error (.dropZone value)

def Dock.decodePluginData : Option (Json K) → Except (LayoutError K) (Option (List (Json K)))
  | none => .ok none
  | some .null => .ok none
  | some value => (ofField value.elements).map some

def Dock.decode (value : Json K) : Except (LayoutError K) (Dock K) := do
  let handle ← DockHandle.decode (← (value.member Word.handle).mapError fun _ => .dockData value)
  let pluginName ← (value.member Word.pluginName).mapError fun _ => .dockData value
  let pluginData ← Dock.decodePluginData (value.member Word.pluginData).toOption
  return { handle, pluginName, pluginData }

def Json.decodeEach {α : Type} (decode : Json K → Except (LayoutError K) α) :
    List (Json K) → Except (LayoutError K) (List α)
  | [] => .ok []
  | value :: rest => do
      let first ← decode value
      let others ← Json.decodeEach decode rest
      return first :: others

variable [Scalar K]

/-! ## Reading containers -/

def Container.decodeFields (value : Json K) : Except (LayoutError K) (List (Dock K) × Int) := do
  let docks ← Json.decodeEach Dock.decode (← ofField (← ofField (value.member Word.docks)).elements)
  let active ← match (value.member Word.activeDock).toOption with
    | none => .ok 0
    | some position => ofField position.toInteger
  return (docks, active)

/-- Reads a container whatever its `type` says. -/
def Container.decode (value : Json K) : Except (LayoutError K) (Container K) := do
  let (docks, active) ← (decodeFields value).mapError LayoutError.inContainer
  if docks.isEmpty then .error .noDocks
  else if 0 ≤ active ∧ active < docks.length then
    .ok {
      docks, active := active.toNat, rect := .zero
      headerHeight := standardHeaderHeight K
      dropEdgeFraction := standardEdgeFraction K }
  else .error (.activeIndex active)

end DockLayout
