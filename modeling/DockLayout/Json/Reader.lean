import DockLayout.Json.Basic

/-!
# Reading JSON text

A text is read in one pass from left to right. Beside the standard grammar the
names `NaN`, `Infinity` and `-Infinity` are numbers. A number with a fraction or
an exponent is a double and any other a whole number of any size. The first
offence is reported with the position at which it was noticed.
-/

set_option autoImplicit false

namespace DockLayout.Json

inductive Offence where
  | value
  | propertyName
  | colon
  | comma
  | extraData
  | openString
  | controlCharacter
  | escape
  | unicodeEscape
  | byteOrderMark
deriving DecidableEq

structure ReadError where
  offence : Offence
  position : Nat
  line : Nat
  column : Nat
deriving DecidableEq

/-- The text not yet read and the number of code points before it. -/
structure Cursor where
  rest : List Nat
  position : Nat

abbrev Fault := Offence × Nat

namespace Cursor

def fail {α : Type} (cursor : Cursor) (offence : Offence) : Except Fault α :=
  .error (offence, cursor.position)

def advance (cursor : Cursor) (count : Nat) : Cursor :=
  ⟨cursor.rest.drop count, cursor.position + count⟩

def isBlank (point : Nat) : Bool :=
  point == 32 || point == 9 || point == 10 || point == 13

def skipBlanks (cursor : Cursor) : Cursor :=
  cursor.advance (cursor.rest.takeWhile isBlank).length

def startsWith (cursor : Cursor) (word : List Char) : Bool :=
  cursor.rest.take word.length == word.map Char.toNat

def expect (cursor : Cursor) (c : Char) (offence : Offence) : Except Fault Cursor :=
  if cursor.rest.head? = some c.toNat then .ok (cursor.advance 1) else cursor.fail offence

end Cursor

/-! ## Strings -/

def hexValue? (point : Nat) : Option Nat :=
  if 48 ≤ point && point ≤ 57 then some (point - 48)
  else if 97 ≤ point && point ≤ 102 then some (point - 87)
  else if 65 ≤ point && point ≤ 70 then some (point - 55)
  else none

def hexQuad? (a b c d : Nat) : Option Nat :=
  match hexValue? a, hexValue? b, hexValue? c, hexValue? d with
  | some a, some b, some c, some d => some (((a * 16 + b) * 16 + c) * 16 + d)
  | _, _, _, _ => none

def isHighSurrogate (unit : Nat) : Bool := 0xD800 ≤ unit && unit ≤ 0xDBFF

def isLowSurrogate (unit : Nat) : Bool := 0xDC00 ≤ unit && unit ≤ 0xDFFF

def joinSurrogates (high low : Nat) : Nat :=
  0x10000 + (high - 0xD800) * 0x400 + (low - 0xDC00)

def simpleEscape? (point : Nat) : Option Nat :=
  if point = 0x22 then some 0x22
  else if point = 0x5C then some 0x5C
  else if point = 0x2F then some 0x2F
  else if point = 0x62 then some 0x08
  else if point = 0x66 then some 0x0C
  else if point = 0x6E then some 0x0A
  else if point = 0x72 then some 0x0D
  else if point = 0x74 then some 0x09
  else none

/-- The string up to its closing quote. `start` is the position of the opening
quote. An escape of four digits must leave something to read, and a high
surrogate is joined with a low one that follows as an escape. -/
def readString (start : Nat) : List Nat → Nat → List Nat → Except Fault (Text × Cursor)
  | [], _, _ => .error (.openString, start)
  | 0x22 :: rest, position, read => .ok (⟨read.reverse⟩, ⟨rest, position + 1⟩)
  | [0x5C], _, _ => .error (.openString, start)
  | 0x5C :: 0x75 :: a :: b :: c :: d :: 0x5C :: 0x75 :: e :: f :: g :: h :: next :: rest,
      position, read =>
      match hexQuad? a b c d with
      | none => .error (.unicodeEscape, position + 1)
      | some unit =>
          if isHighSurrogate unit then
            match hexQuad? e f g h with
            | none => .error (.unicodeEscape, position + 7)
            | some other =>
                if isLowSurrogate other then
                  readString start (next :: rest) (position + 12)
                    (joinSurrogates unit other :: read)
                else
                  readString start (0x5C :: 0x75 :: e :: f :: g :: h :: next :: rest)
                    (position + 6) (unit :: read)
          else
            readString start (0x5C :: 0x75 :: e :: f :: g :: h :: next :: rest)
              (position + 6) (unit :: read)
  | 0x5C :: 0x75 :: a :: b :: c :: d :: next :: rest, position, read =>
      match hexQuad? a b c d with
      | none => .error (.unicodeEscape, position + 1)
      | some unit => readString start (next :: rest) (position + 6) (unit :: read)
  | 0x5C :: 0x75 :: _, position, _ => .error (.unicodeEscape, position + 1)
  | 0x5C :: mark :: rest, position, read =>
      match simpleEscape? mark with
      | none => .error (.escape, position)
      | some point => readString start rest (position + 2) (point :: read)
  | point :: rest, position, read =>
      if point < 32 then .error (.controlCharacter, position)
      else readString start rest (position + 1) (point :: read)

/-! ## Numbers -/

def isDigit (point : Nat) : Bool := 48 ≤ point && point ≤ 57

def toDigits (points : List Nat) : List Char := points.map Char.ofNat

def wholeLength : List Nat → Nat
  | [] => 0
  | point :: rest =>
      if point = 48 then 1 else if isDigit point then (rest.takeWhile isDigit).length + 1 else 0

def fractionLength : List Nat → Nat
  | 0x2E :: rest =>
      let digits := (rest.takeWhile isDigit).length
      if digits = 0 then 0 else digits + 1
  | _ => 0

def readExponent : List Nat → Nat × Int
  | mark :: rest =>
      if mark = 0x65 ∨ mark = 0x45 then
        let signLength := match rest with
          | 0x2B :: _ => 1
          | 0x2D :: _ => 1
          | _ => 0
        let digits := (rest.drop signLength).takeWhile isDigit
        let value : Int := Numeral.digitsValue (toDigits digits)
        if digits.isEmpty then (0, 0)
        else (1 + signLength + digits.length, if rest.head? = some 0x2D then -value else value)
      else (0, 0)
  | [] => (0, 0)

/-- The longest number at the cursor. A fraction or an exponent without digits
is left unread. -/
def readNumber (cursor : Cursor) : Except Fault (Json Float × Cursor) :=
  let negative := cursor.rest.head? = some 0x2D
  let unsigned := if negative then cursor.rest.drop 1 else cursor.rest
  let whole := wholeLength unsigned
  if whole = 0 then cursor.fail .value
  else
    let afterWhole := unsigned.drop whole
    let fraction := fractionLength afterWhole
    let (exponentLength, exponent) := readExponent (afterWhole.drop fraction)
    let next := cursor.advance
      ((if negative then 1 else 0) + whole + fraction + exponentLength)
    let wholeDigits := toDigits (unsigned.take whole)
    if fraction + exponentLength = 0 then
      let value : Int := Numeral.digitsValue wholeDigits
      .ok (.int (if negative then -value else value), next)
    else
      let fractionDigits := toDigits ((afterWhole.take fraction).drop 1)
      .ok (.real (Double.ofNumeral (.ofParts negative wholeDigits fractionDigits exponent)), next)

def words : List (List Char × Json Float) := [
  (['n', 'u', 'l', 'l'], .null),
  (['t', 'r', 'u', 'e'], .bool true),
  (['f', 'a', 'l', 's', 'e'], .bool false),
  (['N', 'a', 'N'], .real Double.notANumber),
  (['I', 'n', 'f', 'i', 'n', 'i', 't', 'y'], .real (Double.infinity false)),
  (['-', 'I', 'n', 'f', 'i', 'n', 'i', 't', 'y'], .real (Double.infinity true))]

/-! ## Values -/

mutual

/-- A value that starts at the cursor. Every call but the first follows a
character that was read, so twice the length of the text is fuel enough. -/
def readValue : Nat → Cursor → Except Fault (Json Float × Cursor)
  | 0, cursor => cursor.fail .value
  | fuel + 1, cursor =>
      match cursor.rest with
      | 0x22 :: rest => do
          let (text, next) ← readString cursor.position rest (cursor.position + 1) []
          return (.str text, next)
      | 0x7B :: _ =>
          let inner := (cursor.advance 1).skipBlanks
          if inner.rest.head? = some 0x7D then .ok (.obj [], inner.advance 1)
          else readMembers fuel inner []
      | 0x5B :: _ =>
          let inner := (cursor.advance 1).skipBlanks
          if inner.rest.head? = some 0x5D then .ok (.arr [], inner.advance 1)
          else readItems fuel inner []
      | _ =>
          match words.find? fun word => cursor.startsWith word.1 with
          | some (word, value) => .ok (value, cursor.advance word.length)
          | none => readNumber cursor

/-- The items from the cursor on, at least one; those before it are in `read`,
the last one first. -/
def readItems : Nat → Cursor → List (Json Float) → Except Fault (Json Float × Cursor)
  | 0, cursor, _ => cursor.fail .value
  | fuel + 1, cursor, read => do
      let (item, afterItem) ← readValue fuel cursor
      let next := afterItem.skipBlanks
      if next.rest.head? = some 0x5D then
        return (.arr (item :: read).reverse, next.advance 1)
      else
        let afterComma ← next.expect ',' .comma
        readItems fuel afterComma.skipBlanks (item :: read)

def readMembers : Nat → Cursor → List (Text × Json Float) → Except Fault (Json Float × Cursor)
  | 0, cursor, _ => cursor.fail .value
  | fuel + 1, cursor, read => do
      let opened ← cursor.expect '"' .propertyName
      let (key, afterKey) ← readString cursor.position opened.rest opened.position []
      let afterColon ← afterKey.skipBlanks.expect ':' .colon
      let (value, afterValue) ← readValue fuel afterColon.skipBlanks
      let next := afterValue.skipBlanks
      let entries := put key value read
      if next.rest.head? = some 0x7D then
        return (.obj entries, next.advance 1)
      else
        let afterComma ← next.expect ',' .comma
        readMembers fuel afterComma.skipBlanks entries

end

def readDocument (points : List Nat) : Except Fault (Json Float) := do
  if points.head? = some 0xFEFF then throw (.byteOrderMark, 0)
  let start : Cursor := ⟨points, 0⟩
  let (value, afterValue) ← readValue (2 * points.length + 2) start.skipBlanks
  let last := afterValue.skipBlanks
  if last.rest.isEmpty then return value else last.fail .extraData

/-- Lines and columns count from one; a line ends at its line feed. -/
def locate (points : List Nat) (offence : Offence) (position : Nat) : ReadError :=
  let before := points.take position
  { offence, position
    line := before.count 10 + 1
    column := (before.reverse.takeWhile (· != 10)).length + 1 }

def ofText (text : Text) : Except ReadError (Json Float) :=
  match readDocument text.points with
  | .ok value => .ok value
  | .error (offence, position) => .error (locate text.points offence position)

end DockLayout.Json
