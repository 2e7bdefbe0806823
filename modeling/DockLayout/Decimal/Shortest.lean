import DockLayout.Scalar

/-!
# Shortest decimals

A finite double other than zero is `mantissa * 2 ^ exponent`. The reals that
round to it form an interval, and `shortest` gives the decimal with the fewest
digits inside that interval, the nearest to the double among those, and the
one with an even last digit when two are equally near.
-/

set_option autoImplicit false

namespace DockLayout.Decimal

/-- A positive number with the interval of reals that round to it; all three
are numerators over `scale`. -/
structure Neighbourhood where
  scale : Nat
  low : Nat
  value : Nat
  high : Nat
  closed : Bool

/-- Half a unit to either side, or a quarter below the value when the next
double down is half as far; the ends belong to an even mantissa. -/
def Neighbourhood.ofBinary (mantissa : Nat) (exponent : Int) (nearBelow : Bool) :
    Neighbourhood :=
  let up := Nat.pow 2 exponent.toNat
  { scale := 4 * Nat.pow 2 (-exponent).toNat
    low := (4 * mantissa - if nearBelow then 1 else 2) * up
    value := 4 * mantissa * up
    high := (4 * mantissa + 2) * up
    closed := mantissa % 2 == 0 }

namespace Neighbourhood

variable (interval : Neighbourhood)

def has (digits : Nat) (power : Int) : Bool :=
  let point := digits * Nat.pow 10 power.toNat * interval.scale
  let factor := Nat.pow 10 (-power).toNat
  if interval.closed then interval.low * factor ≤ point && point ≤ interval.high * factor
  else interval.low * factor < point && point < interval.high * factor

/-- The value counted in steps of `10 ^ power`, as a quotient and a remainder
over the returned divisor. -/
def steps (power : Int) : Nat × Nat × Nat :=
  let divisor := interval.scale * Nat.pow 10 power.toNat
  let value := interval.value * Nat.pow 10 (-power).toNat
  (value / divisor, value % divisor, divisor)

/-- The better of the value's two neighbours among the multiples of
`10 ^ power`, if one lies in the interval. -/
def nearest? (power : Int) : Option Nat :=
  let (below, remainder, divisor) := interval.steps power
  match interval.has below power, interval.has (below + 1) power with
  | false, false => none
  | true, false => some below
  | false, true => some (below + 1)
  | true, true =>
      if 2 * remainder < divisor then some below
      else if divisor < 2 * remainder then some (below + 1)
      else some (if below % 2 = 0 then below else below + 1)

/-- The least power of ten above the value, exact for every positive double. -/
def magnitude : Int :=
  (Nat.toDigits 10 (interval.value * Nat.pow 10 400 / interval.scale)).length - 400

end Neighbourhood

def stripZeros : Nat → Nat → Int → Nat × Int
  | 0, digits, power => (digits, power)
  | fuel + 1, digits, power =>
      if digits % 10 = 0 then stripZeros fuel (digits / 10) (power + 1) else (digits, power)

/-- Digits and power of ten of the shortest decimal in the interval. Seventeen
digits are enough for every double. -/
def shortest (interval : Neighbourhood) : Nat × Int :=
  let magnitude := interval.magnitude
  match (List.range 17).findSome? fun (count : Nat) =>
      let power : Int := magnitude - (count + 1)
      (interval.nearest? power).map fun digits => (digits, power) with
  | some (digits, power) => stripZeros 17 digits power
  | none => (0, 0)

def ofFields (exponent fraction : Nat) : Nat × Int :=
  if exponent = 0 then
    shortest (.ofBinary fraction (-1074) false)
  else
    shortest (.ofBinary (Nat.pow 2 52 + fraction) (exponent - 1075 : Int)
      (decide (fraction = 0 ∧ 1 < exponent)))

end DockLayout.Decimal
