import DockLayout.Decimal.Shortest

/-!
# Number style

How a double is written: which exponents are positional, how the others look,
and the names of the values that are no decimals.
-/

set_option autoImplicit false

namespace DockLayout.Decimal

structure NumberStyle where
  leastPositional : Int
  mostPositional : Int
  exponentDigits : Nat
  infinity : String
  notANumber : String

/-- Messages write 0.0001 and 9999999999999998.0 in positional form and go over
to an exponent of at least two digits beyond them. -/
def plain : NumberStyle where
  leastPositional := -4
  mostPositional := 15
  exponentDigits := 2
  infinity := "inf"
  notANumber := "nan"

def stored : NumberStyle := { plain with infinity := "Infinity", notANumber := "NaN" }

namespace NumberStyle

def exponentText (style : NumberStyle) (exponent : Int) : String :=
  let digits := toString exponent.natAbs
  let zeros := String.ofList (List.replicate (style.exponentDigits - digits.length) '0')
  (if exponent < 0 then "-" else "+") ++ zeros ++ digits

def positional (digits : List Char) (whole : Int) : String :=
  let count := digits.length
  String.ofList <|
    if whole ≤ 0 then '0' :: '.' :: (List.replicate (-whole).toNat '0' ++ digits)
    else if (count : Int) ≤ whole then
      digits ++ List.replicate (whole.toNat - count) '0' ++ ['.', '0']
    else digits.take whole.toNat ++ '.' :: digits.drop whole.toNat

def scientific (style : NumberStyle) (digits : List Char) (exponent : Int) : String :=
  let head := digits.take 1
  let tail := digits.drop 1
  String.ofList (head ++ if tail.isEmpty then [] else '.' :: tail) ++ "e" ++
    style.exponentText exponent

/-- The text of the positive number `digits * 10 ^ power`. -/
def decimal (style : NumberStyle) (digits : Nat) (power : Int) : String :=
  let shown := Nat.toDigits 10 digits
  let exponent := power + shown.length - 1
  if style.leastPositional ≤ exponent && exponent ≤ style.mostPositional then
    positional shown (exponent + 1)
  else style.scientific shown exponent

def write (style : NumberStyle) (x : Float) : String :=
  let (negative, exponent, fraction) := Double.fields x
  let sign := if negative then "-" else ""
  if exponent = 2047 then
    if fraction = 0 then sign ++ style.infinity else style.notANumber
  else if exponent = 0 ∧ fraction = 0 then sign ++ "0.0"
  else
    let (digits, power) := ofFields exponent fraction
    sign ++ style.decimal digits power

end NumberStyle

end DockLayout.Decimal
