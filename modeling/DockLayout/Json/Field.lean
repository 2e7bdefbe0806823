import DockLayout.Json.Basic

/-!
# Fields of persisted data

A layout file may hold any value in any place. The conversions here say what
is taken from it: a member of an object, the elements of anything that has
elements, a number from anything that spells one. A `FieldError` is either a
value of the wrong shape or a value of the right shape without such a number.
-/

set_option autoImplicit false

namespace DockLayout

inductive FieldError where
  | missing (key : Text)
  | noMembers (kind : Json.Kind)
  | keyOfList
  | keyOfText
  | noElements (kind : Json.Kind)
  | noReal (kind : Json.Kind)
  | noInteger (kind : Json.Kind)
  | realText (text : Text)
  | integerText (text : Text)
  | integerOfNotANumber
  | integerOfInfinity
  | integerTooLarge
deriving DecidableEq

/-- A value of the wrong shape, as opposed to one without the number. -/
def FieldError.isShape : FieldError → Bool
  | .missing _ | .noMembers _ | .keyOfList | .keyOfText | .noElements _ | .noReal _
  | .noInteger _ => true
  | _ => false

namespace Json

variable {K : Type}

def member (value : Json K) (key : Text) : Except FieldError (Json K) :=
  match value with
  | .obj entries =>
      match find? key entries with
      | some found => .ok found
      | none => .error (.missing key)
  | .arr _ => .error .keyOfList
  | .str _ => .error .keyOfText
  | _ => .error (.noMembers value.kind)

/-- The items of a list, the keys of an object, the characters of a text. -/
def elements : Json K → Except FieldError (List (Json K))
  | .arr items => .ok items
  | .obj entries => .ok (entries.map fun entry => .str entry.1)
  | .str text => .ok (text.points.map fun point => .str ⟨[point]⟩)
  | value => .error (.noElements value.kind)

variable [Scalar K]

def ofInteger (value : Int) : Except FieldError K :=
  match Scalar.ofInt? value with
  | some x => .ok x
  | none => .error .integerTooLarge

/-- A number, a truth value as zero or one, or a text that spells a number. -/
def toReal (value : Json K) : Except FieldError K :=
  match value with
  | .int i => ofInteger i
  | .real x => .ok x
  | .bool b => .ok (if b then 1 else 0)
  | .str text =>
      match (Numeral.ofText? text).bind Scalar.ofNumeral? with
      | some x => .ok x
      | none => .error (.realText text)
  | _ => .error (.noReal value.kind)

/-- As `toReal`, without the fractional part. -/
def toInteger (value : Json K) : Except FieldError Int :=
  match value with
  | .int i => .ok i
  | .real x =>
      match Scalar.truncate x with
      | .whole i => .ok i
      | .notANumber => .error .integerOfNotANumber
      | .infinite => .error .integerOfInfinity
  | .bool b => .ok (if b then 1 else 0)
  | .str text =>
      match Numeral.integer? text with
      | some i => .ok i
      | none => .error (.integerText text)
  | _ => .error (.noInteger value.kind)

end Json

end DockLayout
