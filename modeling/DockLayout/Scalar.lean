import DockLayout.Decimal.Numeral

/-!
# Scalars

Positions, extents and ratios are measured in a `Scalar`. A workspace runs on
doubles; the same definitions over the rationals say what it would do without
rounding. Comparisons keep the first operand when neither is strictly better,
which fixes the results on values that are no numbers.
-/

set_option autoImplicit false

namespace DockLayout

inductive Truncation where
  | whole (value : Int)
  | notANumber
  | infinite
deriving DecidableEq

class Scalar (K : Type) extends Zero K, One K, Add K, Sub K, Mul K, Div K, Neg K,
    NatCast K, OfScientific K, LT K, LE K, BEq K where
  decideLt : DecidableLT K
  decideLe : DecidableLE K
  /-- The nearest scalar, or nothing when the integer is out of range. -/
  ofInt? : Int → Option K
  /-- The nearest scalar, or nothing when there is none of that name. -/
  ofNumeral? : Numeral → Option K
  truncate : K → Truncation

instance Scalar.decidableLt {K : Type} [Scalar K] : DecidableLT K := Scalar.decideLt

instance Scalar.decidableLe {K : Type} [Scalar K] : DecidableLE K := Scalar.decideLe

section Order

variable {K : Type} [Scalar K]

/-- The first operand unless the second is strictly less. -/
def lesser (first second : K) : K := if second < first then second else first

/-- The first operand unless the second is strictly greater. -/
def greater (first second : K) : K := if first < second then second else first

/-- Raised to the lower bound first, then cut to the upper one. -/
def clamp (value low high : K) : K := lesser (greater value low) high

def total (values : List K) : K := values.foldl (· + ·) 0

end Order

/-! ## Doubles -/

namespace Double

def infinity (negative : Bool) : Float :=
  Float.ofBits (if negative then 0xFFF0000000000000 else 0x7FF0000000000000)

def notANumber : Float := Float.ofBits 0x7FF8000000000000

def fields (x : Float) : Bool × Nat × Nat :=
  let bits := x.toBits.toNat
  (decide (Nat.pow 2 63 ≤ bits), bits / Nat.pow 2 52 % Nat.pow 2 11, bits % Nat.pow 2 52)

def ofNumeral : Numeral → Float
  | .decimal negative mantissa exponent =>
      let magnitude := Float.ofScientific mantissa (decide (exponent < 0)) exponent.natAbs
      if negative then -magnitude else magnitude
  | .infinity negative => infinity negative
  | .notANumber => notANumber

/-- Rounds to nearest; an integer that rounds to an infinity is refused. -/
def ofInt? (value : Int) : Option Float :=
  let x := Float.ofInt value
  if x == infinity false || x == infinity true then none else some x

def truncate (x : Float) : Truncation :=
  let (negative, exponent, fraction) := fields x
  if exponent = 2047 then
    if fraction = 0 then .infinite else .notANumber
  else if exponent < 1023 then .whole 0
  else
    let mantissa := Nat.pow 2 52 + fraction
    let magnitude : Nat := if 1075 ≤ exponent then mantissa * Nat.pow 2 (exponent - 1075)
      else mantissa / Nat.pow 2 (1075 - exponent)
    .whole (if negative then -magnitude else magnitude)

instance scalar : Scalar Float where
  zero := 0.0
  one := 1.0
  natCast := Float.ofNat
  ofScientific := Float.ofScientific
  decideLt := fun a b => Float.decLt a b
  decideLe := fun a b => Float.decLe a b
  ofInt? := ofInt?
  ofNumeral? := fun numeral => some (ofNumeral numeral)
  truncate := truncate

end Double

/-! ## Exact rationals -/

namespace Exact

/-- The rationals have no infinities. -/
def ofNumeral? : Numeral → Option Rat
  | .decimal negative mantissa exponent =>
      let magnitude := Rat.ofScientific mantissa (decide (exponent < 0)) exponent.natAbs
      some (if negative then -magnitude else magnitude)
  | .infinity _ => none
  | .notANumber => none

instance scalar : Scalar Rat where
  zero := 0
  one := 1
  decideLt := inferInstance
  decideLe := inferInstance
  ofInt? := fun value => some value
  ofNumeral? := ofNumeral?
  truncate := fun x => .whole (x.num.tdiv x.den)

end Exact

end DockLayout
