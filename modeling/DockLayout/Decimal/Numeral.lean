import DockLayout.Text.Charset

/-!
# Numerals

A `Numeral` is a number as it is spelled: a decimal with an exponent of ten,
an infinity, or no number. The readers here accept a whole text: blanks around
it, a sign, digits of any script, single underscores between digits.
-/

set_option autoImplicit false

namespace DockLayout

inductive Numeral where
  | decimal (negative : Bool) (mantissa : Nat) (exponent : Int)
  | infinity (negative : Bool)
  | notANumber
deriving DecidableEq

namespace Numeral

def digitsValue (digits : List Char) : Nat :=
  digits.foldl (fun value digit => 10 * value + (digit.toNat - 48)) 0

def ofParts (negative : Bool) (whole fraction : List Char) (exponent : Int) : Numeral :=
  .decimal negative (digitsValue (whole ++ fraction)) (exponent - fraction.length)

/-- The characters of a text with blanks and digits of all scripts replaced by
their ASCII forms. A text within ASCII stays as it is; any other code point
becomes a mark that no numeral contains. -/
def plainChars (text : Text) : List Char :=
  if text.points.all fun point => point < 128 then
    text.points.map Char.ofNat
  else
    text.points.map fun point =>
      if point < 127 then Char.ofNat point
      else if Charset.isWideBlank point then ' '
      else match Charset.wideDigit? point with
        | some digit => Char.ofNat (48 + digit)
        | none => '?'

def strip (chars : List Char) : List Char :=
  let blank := fun c : Char => Charset.isPlainBlank c.toNat
  ((chars.dropWhile blank).reverse.dropWhile blank).reverse

def startsWithDigit : List Char → Bool
  | [] => false
  | c :: _ => c.isDigit

/-- Underscores are taken out; each must stand between two digits. -/
def joinGroups (afterDigit : Bool) : List Char → Option (List Char)
  | [] => some []
  | '_' :: rest =>
      if afterDigit && startsWithDigit rest then joinGroups false rest else none
  | c :: rest => (joinGroups c.isDigit rest).map (c :: ·)

def splitSign : List Char → Bool × List Char
  | '-' :: rest => (true, rest)
  | '+' :: rest => (false, rest)
  | rest => (false, rest)

def exponent? : List Char → Option Int
  | [] => some 0
  | mark :: rest =>
      if mark = 'e' ∨ mark = 'E' then
        let (negative, digits) := splitSign rest
        if digits.isEmpty || !digits.all Char.isDigit then none
        else some (if negative then -(digitsValue digits : Int) else digitsValue digits)
      else none

def unsigned? (negative : Bool) (body : List Char) : Option Numeral :=
  let name := body.map Char.toLower
  if name = ['i', 'n', 'f'] ∨ name = ['i', 'n', 'f', 'i', 'n', 'i', 't', 'y'] then
    some (.infinity negative)
  else if name = ['n', 'a', 'n'] then some .notANumber
  else
    let whole := body.takeWhile Char.isDigit
    let afterWhole := body.dropWhile Char.isDigit
    let (fraction, afterFraction) := match afterWhole with
      | '.' :: rest => (rest.takeWhile Char.isDigit, rest.dropWhile Char.isDigit)
      | rest => ([], rest)
    if whole.isEmpty && fraction.isEmpty then none
    else (exponent? afterFraction).map (ofParts negative whole fraction)

def ofText? (text : Text) : Option Numeral :=
  (joinGroups false (strip (plainChars text))).bind fun chars =>
    let (negative, body) := splitSign chars
    unsigned? negative body

/-- The integer that a text spells in base ten, if it spells one. There may be any number of
digits; interpreters that set a limit, commonly one of 4300 digits, refuse longer ones. -/
def integer? (text : Text) : Option Int :=
  (joinGroups false (strip (plainChars text))).bind fun chars =>
    let (negative, digits) := splitSign chars
    if digits.isEmpty || !digits.all Char.isDigit then none
    else some (if negative then -(digitsValue digits : Int) else digitsValue digits)

end Numeral

end DockLayout
