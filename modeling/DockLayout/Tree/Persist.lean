import DockLayout.Panel.Persist
import DockLayout.Tree.Split

/-!
# Areas as JSON

`encode` writes an area without its rectangles. `decode` reads any JSON value
and accepts it or says what is wrong with it. Boundaries are brought within
bounds on the way in, and every rectangle of a decoded area is the zero
rectangle.
-/

set_option autoImplicit false

namespace DockLayout

open LayoutError (ofField)

variable {K : Type}

/-! ## Writing -/

namespace Area

mutual

def encode : Area K → Json K
  | .container panel => panel.encode
  | .split frame children =>
      .obj [
        (Word.type, .str Word.split),
        (Word.handle, .int frame.handle.value),
        (Word.direction, .str frame.direction.name),
        (Word.ratios, .arr (frame.ratios.map .real)),
        (Word.children, .arr (encodeEach children))]

def encodeEach : List (Area K) → List (Json K)
  | [] => []
  | area :: rest => area.encode :: encodeEach rest

end

theorem encodeEach_eq (areas : List (Area K)) : encodeEach areas = areas.map encode := by
  induction areas with
  | nil => rfl
  | cons area rest ih => simp [encodeEach, ih]

end Area

variable [Scalar K]

/-! ## Reading -/

def Split.decodeHead (value : Json K) :
    Except (LayoutError K) (SplitHandle × Direction × List K) := do
  let handle ← SplitHandle.decode (← ofField (value.member Word.handle))
  let direction ← Direction.decode (← ofField (value.member Word.direction))
  let ratios ← Json.decodeEach (fun ratio => ofField ratio.toReal)
    (← ofField (← ofField (value.member Word.ratios)).elements)
  return (handle, direction, ratios)

def Split.boundedRatios : List K → List K
  | first :: second :: rest => bounded first :: boundedRatios (second :: rest)
  | ratios => ratios

def Split.assemble (head : SplitHandle × Direction × List K) (children : List (Area K)) :
    Except (LayoutError K) (Split K) :=
  Split.make children (boundedRatios head.2.2) head.2.1 head.1 .zero

namespace Area

/-- What the elements of a value that is no list of areas are refused for. -/
def refuseElement {α : Type} : List (Json K) → Except (LayoutError K) (List α)
  | [] => .ok []
  | element :: _ => .error (.areaData element)

mutual

def decode : Json K → Except (LayoutError K) (Area K)
  | .obj entries =>
      match Json.find? Word.type entries with
      | some (.str name) =>
          if name = Word.split then do
            let head ← (Split.decodeHead (.obj entries)).mapError LayoutError.inSplit
            let children ← (decodeChildren entries).mapError LayoutError.inSplit
            return (← Split.assemble head children).toArea
          else if name = Word.container then
            (Container.decode (.obj entries)).map .container
          else .error (.areaType (.str name))
      | some value => .error (.areaType value)
      | none => .error (.areaType .null)
  | value => .error (.areaData value)

def decodeChildren : List (Text × Json K) → Except (LayoutError K) (List (Area K))
  | [] => .error (.field (.missing Word.children))
  | (name, value) :: rest =>
      if name = Word.children then decodeElements value else decodeChildren rest

/-- The areas among the elements of a value. Only a list has elements that can
be areas. -/
def decodeElements : Json K → Except (LayoutError K) (List (Area K))
  | .arr items => decodeItems items
  | value => do refuseElement (← ofField value.elements)

def decodeItems : List (Json K) → Except (LayoutError K) (List (Area K))
  | [] => .ok []
  | value :: rest => do
      let first ← decode value
      let others ← decodeItems rest
      return first :: others

end

theorem decodeItems_eq (values : List (Json K)) :
    decodeItems values = Json.decodeEach decode values := by
  induction values with
  | nil => rfl
  | cons value rest ih => simp [decodeItems, Json.decodeEach, ih]

theorem decodeChildren_eq (entries : List (Text × Json K)) :
    decodeChildren entries =
      (ofField ((Json.obj entries).member Word.children)).bind decodeElements := by
  induction entries with
  | nil => rfl
  | cons entry rest ih =>
    obtain ⟨name, value⟩ := entry
    by_cases same : name = Word.children
    · simp [decodeChildren, Json.member, Json.find?, same]
      rfl
    · simp only [decodeChildren, Json.member, Json.find?, same, if_false] at ih ⊢
      exact ih

end Area

/-- Reads a split whatever its `type` says. -/
def Split.decode (value : Json K) : Except (LayoutError K) (Split K) := do
  let head ← (decodeHead value).mapError LayoutError.inSplit
  let children ← match value with
    | .obj entries => (Area.decodeChildren entries).mapError LayoutError.inSplit
    | _ => .ok []
  assemble head children

end DockLayout
