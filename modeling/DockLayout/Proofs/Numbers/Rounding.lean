import Mathlib.Algebra.Order.Ring.Abs
import Mathlib.Algebra.Order.Field.Rat
import Mathlib.Tactic.Linarith
import Mathlib.Tactic.Positivity
import Mathlib.Tactic.Ring
import DockLayout.Panel.Config

/-!
# Rounding arithmetic

What the ratios of a layout need of the arithmetic they are computed in. Every
scalar that is a number has a rational value, and an operation on finite scalars
yields the exact result rounded to a nearest value. Overflow yields a number
that is not finite; a scalar need not be a number at all. Exact arithmetic is
the case in which nothing is rounded.
-/

set_option autoImplicit false

namespace DockLayout

class Rounding (K : Type) [Scalar K] where
  IsNumber : K → Prop
  IsFinite : K → Prop
  /-- An extent of which sums of parts stay finite. -/
  IsModest : K → Prop
  /-- An infinity counts as the bound beyond which nothing is finite. -/
  value : K → ℚ
  round : ℚ → ℚ
  -- Order
  isNumber_of_isFinite : ∀ {x : K}, IsFinite x → IsNumber x
  isFinite_of_isModest : ∀ {x : K}, IsModest x → IsFinite x
  lt_iff : ∀ {x y : K}, IsNumber x → IsNumber y → (x < y ↔ value x < value y)
  le_iff : ∀ {x y : K}, IsNumber x → IsNumber y → (x ≤ y ↔ value x ≤ value y)
  beq_iff : ∀ {x y : K}, IsNumber x → IsNumber y → ((x == y) = true ↔ value x = value y)
  isFinite_of_le : ∀ {x y : K}, IsNumber x → IsFinite y → |value x| ≤ |value y| → IsFinite x
  isModest_of_le : ∀ {x y : K}, IsNumber x → IsModest y → |value x| ≤ |value y| → IsModest x
  isFinite_of_le_modest : ∀ {x y : K},
    IsNumber x → IsModest y → |value x| ≤ 8 * |value y| → IsFinite x
  -- Rounding
  round_mono : Monotone round
  round_value : ∀ {x : K}, IsFinite x → round (value x) = value x
  round_near : ∀ {x : K} (q : ℚ), IsFinite x → |round q - q| ≤ |value x - q|
  -- Constants
  isModest_zero : IsModest (0 : K)
  isFinite_one : IsFinite (1 : K)
  value_zero : value (0 : K) = 0
  value_one : value (1 : K) = 1
  isFinite_minRatio : IsFinite (minRatio K)
  isFinite_maxRatio : IsFinite (maxRatio K)
  minRatio_pos : 0 < value (minRatio K)
  minRatio_le_maxRatio : value (minRatio K) ≤ value (maxRatio K)
  maxRatio_lt_one : value (maxRatio K) < 1
  isNumber_natCast : ∀ n : Nat, IsNumber (n : K)
  one_le_natCast : ∀ {n : Nat}, 1 ≤ n → 1 ≤ value (n : K)
  isFinite_ones : ∀ n : Nat, IsFinite (total (List.replicate n (1 : K)))
  -- Operations
  add : ∀ {x y : K}, IsFinite x → IsFinite y →
    IsNumber (x + y) ∧ value (x + y) = round (value x + value y)
  sub : ∀ {x y : K}, IsFinite x → IsFinite y →
    IsNumber (x - y) ∧ value (x - y) = round (value x - value y)
  mul : ∀ {x y : K}, IsFinite x → IsFinite y →
    IsNumber (x * y) ∧ value (x * y) = round (value x * value y)
  /-- Division by a positive number is multiplication by some factor, which is
  its inverse unless the number is infinite. -/
  div : ∀ {y : K}, IsNumber y → 0 < value y →
    ∃ factor : ℚ, 0 ≤ factor ∧ factor * value y ≤ 1 ∧ ∀ x : K, IsFinite x →
      IsNumber (x / y) ∧ value (x / y) = round (value x * factor)
  -- Operations on a number that may be infinite
  isNumber_neg : ∀ {x : K}, IsNumber x → IsNumber (-x)
  isNumber_add : ∀ {x y : K}, IsFinite x → IsNumber y → IsNumber (x + y)
  isNumber_sub : ∀ {x y : K}, IsFinite x → IsNumber y → IsNumber (x - y)
  isNumber_div : ∀ {x y : K}, IsNumber x → IsFinite y → value y ≠ 0 → IsNumber (x / y)

namespace Rounding

variable {K : Type} [Scalar K] [Rounding K] {x y z : K}

/-! ## Rounding -/

theorem isFinite_zero : IsFinite (0 : K) := isFinite_of_isModest isModest_zero

variable (K) in
theorem round_zero : round K 0 = 0 := by
  have fixed := round_value (isFinite_zero (K := K))
  rwa [value_zero] at fixed

variable (K) in
theorem round_one : round K 1 = 1 := by
  have fixed := round_value (isFinite_one (K := K))
  rwa [value_one] at fixed

variable (K) in
theorem round_nonneg {q : ℚ} (nonneg : 0 ≤ q) : 0 ≤ round K q := by
  rw [← round_zero K]
  exact round_mono nonneg

variable (K) in
theorem round_nonpos {q : ℚ} (nonpos : q ≤ 0) : round K q ≤ 0 := by
  rw [← round_zero K]
  exact round_mono nonpos

variable (K) in
theorem abs_round_le (q : ℚ) : |round K q| ≤ 2 * |q| := by
  have near := round_near (x := (0 : K)) q isFinite_zero
  rw [value_zero, zero_sub, abs_neg] at near
  have triangle := abs_add_le (round K q - q) q
  rw [sub_add_cancel] at triangle
  linarith

/-- A rounded sum exceeds the first summand by at most twice the second. -/
theorem abs_round_add_le (finite : IsFinite x) (q : ℚ) :
    |round K (value x + q)| ≤ |value x| + 2 * |q| := by
  have near := round_near (value x + q) finite
  rw [show value x - (value x + q) = -q by ring, abs_neg] at near
  have triangle := abs_add_le (round K (value x + q) - (value x + q)) (value x + q)
  rw [sub_add_cancel] at triangle
  have parts := abs_add_le (value x) q
  linarith

/-! ## Bounds -/

theorem isFinite_of_between (number : IsNumber x) (low : IsFinite y) (high : IsFinite z)
    (above : value y ≤ value x) (below : value x ≤ value z) : IsFinite x := by
  rcases le_total 0 (value x) with positive | negative
  · apply isFinite_of_le number high
    rw [abs_of_nonneg positive]
    exact below.trans (le_abs_self _)
  · apply isFinite_of_le number low
    rw [abs_of_nonpos negative]
    exact (neg_le_neg above).trans (neg_le_abs _)

theorem lesser_number (first : IsNumber x) (second : IsNumber y) :
    IsNumber (lesser x y) ∧ value (lesser x y) = min (value x) (value y) := by
  unfold lesser
  split
  · rename_i less
    rw [lt_iff second first] at less
    exact ⟨second, (min_eq_right less.le).symm⟩
  · rename_i notLess
    rw [lt_iff second first, not_lt] at notLess
    exact ⟨first, (min_eq_left notLess).symm⟩

theorem greater_number (first : IsNumber x) (second : IsNumber y) :
    IsNumber (greater x y) ∧ value (greater x y) = max (value x) (value y) := by
  unfold greater
  split
  · rename_i less
    rw [lt_iff first second] at less
    exact ⟨second, (max_eq_right less.le).symm⟩
  · rename_i notLess
    rw [lt_iff first second, not_lt] at notLess
    exact ⟨first, (max_eq_left notLess).symm⟩

theorem clamp_between (number : IsNumber x) (low : IsFinite y) (high : IsFinite z)
    (bounds : value y ≤ value z) :
    IsFinite (clamp x y z) ∧ value y ≤ value (clamp x y z) ∧ value (clamp x y z) ≤ value z ∧
      value (clamp x y z) = min (max (value x) (value y)) (value z) := by
  obtain ⟨raised, raisedValue⟩ := greater_number number (isNumber_of_isFinite low)
  obtain ⟨cut, cutValue⟩ := lesser_number raised (isNumber_of_isFinite high)
  rw [raisedValue] at cutValue
  change IsFinite (lesser (greater x y) z) ∧ _
  have above : value y ≤ value (lesser (greater x y) z) := by
    rw [cutValue]
    exact le_min (le_max_right _ _) bounds
  have below : value (lesser (greater x y) z) ≤ value z := by
    rw [cutValue]
    exact min_le_right _ _
  exact ⟨isFinite_of_between cut low high above below, above, below, cutValue⟩

/-! ## Fractions -/

structure IsFraction (x : K) : Prop where
  finite : IsFinite x
  nonneg : 0 ≤ value x
  le_one : value x ≤ 1

theorem isFraction_zero : IsFraction (0 : K) :=
  ⟨isFinite_zero, value_zero.ge, value_zero.le.trans zero_le_one⟩

theorem isFraction_one : IsFraction (1 : K) :=
  ⟨isFinite_one, zero_le_one.trans value_one.ge, value_one.le⟩

theorem IsFraction.of_between (number : IsNumber x) (low : IsFraction y) (high : IsFraction z)
    (above : value y ≤ value x) (below : value x ≤ value z) : IsFraction x :=
  ⟨isFinite_of_between number low.finite high.finite above below, low.nonneg.trans above,
    below.trans high.le_one⟩

theorem isFraction_minRatio : IsFraction (minRatio K) :=
  ⟨isFinite_minRatio, minRatio_pos.le, minRatio_le_maxRatio.trans maxRatio_lt_one.le⟩

theorem isFraction_maxRatio : IsFraction (maxRatio K) :=
  ⟨isFinite_maxRatio, minRatio_pos.le.trans minRatio_le_maxRatio, maxRatio_lt_one.le⟩

theorem span_fraction (low : IsFraction x) (high : IsFraction y) (order : value x ≤ value y) :
    IsFraction (y - x) ∧ value (y - x) = round K (value y - value x) ∧
      value (y - x) ≤ 2 * (value y - value x) := by
  obtain ⟨number, same⟩ := sub high.finite low.finite
  have nonneg : 0 ≤ value (y - x) := by
    rw [same]
    exact round_nonneg K (sub_nonneg.mpr order)
  have below : value (y - x) ≤ 1 := by
    rw [same, ← round_one K]
    apply round_mono
    linarith [low.nonneg, high.le_one]
  have doubled : value (y - x) ≤ 2 * (value y - value x) := by
    have bound := abs_round_le K (value y - value x)
    rw [abs_of_nonneg (sub_nonneg.mpr order)] at bound
    rw [same]
    exact (le_abs_self _).trans bound
  refine ⟨.of_between number isFraction_zero isFraction_one ?_ ?_, same, doubled⟩
  · rwa [value_zero]
  · rwa [value_one]

theorem mul_fraction (finite : IsFinite x) (part : IsFraction y) :
    IsFinite (x * y) ∧ value (x * y) = round K (value x * value y) ∧
      |value (x * y)| ≤ |value x| := by
  obtain ⟨number, same⟩ := mul finite part.finite
  have smaller : |value (x * y)| ≤ |value x| := by
    rw [same]
    rcases le_total 0 (value x) with positive | negative
    · have product : 0 ≤ value x * value y := mul_nonneg positive part.nonneg
      rw [abs_of_nonneg (round_nonneg K product), abs_of_nonneg positive]
      apply (round_mono (mul_le_of_le_one_right positive part.le_one)).trans
      exact (round_value finite).le
    · have product : value x * value y ≤ 0 := mul_nonpos_of_nonpos_of_nonneg negative part.nonneg
      rw [abs_of_nonpos (round_nonpos K product), abs_of_nonpos negative, neg_le_neg_iff]
      refine (round_value finite).ge.trans (round_mono ?_)
      nlinarith [part.nonneg, part.le_one]
  exact ⟨isFinite_of_le number finite smaller, same, smaller⟩

end Rounding

end DockLayout
