import Mathlib
import DockLayout.Proofs.Binary64.Residue

/-!
# Values of unpacked doubles

The rational that an unpacked double stands for, and what the rounding of the
logical model makes of it: the nearest value on the grid of its binade, in the
one form that the comparison of doubles expects.
-/

set_option autoImplicit false

namespace DockLayout.Binary64

open Float.Model Float.Model.UnpackedFloat

def signed : Sign → ℚ → ℚ
  | .negative, q => -q
  | .positive, q => q

/-- An infinity stands for the bound beyond the finite doubles. What is not a
number has no value of its own. -/
def unpackedValue : UnpackedFloat → ℚ
  | .infinity s => signed s beyond
  | .notANumber => 0
  | .zero _ => 0
  | .finite s m e _ => signed s (m * 2 ^ e)

structure InBinade (m : Nat) (e : ℤ) : Prop where
  short : m < 2 ^ 53
  coarse : -1074 ≤ e
  normal : 2 ^ 52 ≤ m ∨ e = -1074

/-- In the form that rounding yields. The exponent may be too large to be stored. -/
def Canonical : UnpackedFloat → Prop
  | .finite _ m e _ => InBinade m e
  | _ => True

/-! ## Exponents -/

theorem targetExponent_eq (t : ℤ) :
    Format.binary64.targetExponent t = max (t - 53) (-1074) := by
  simp [Format.targetExponent, Format.minExponent, Format.mantissaBits]

/-- The exponent of the model is that of the grid, however much of the rational
the mantissa leaves out. -/
theorem targetExponent_of_pos {m : Nat} (positive : 0 < m) {x : ℚ} (whole : (m : ℚ) ≤ x)
    (rest : x < m + 1) (e : ℤ) :
    Format.binary64.targetExponent (totalExponent m e) = gridExponent (x * 2 ^ e) := by
  have some : (0 : ℚ) < x := lt_of_lt_of_le (by exact_mod_cast positive) whole
  have log : Int.log 2 (x * 2 ^ e) = m.log2 + e := by
    have scaled : 0 < x * 2 ^ e := mul_pos some (two_zpow_pos e)
    have lower : (2 : ℚ) ^ (m.log2 + e : ℤ) ≤ x * 2 ^ e := by
      rw [zpow_add₀ two_ne_zero, zpow_natCast]
      refine mul_le_mul_of_nonneg_right (le_trans ?_ whole) (two_zpow_pos e).le
      exact_mod_cast Nat.log2_self_le positive.ne'
    have upper : x * 2 ^ e < (2 : ℚ) ^ (m.log2 + e + 1 : ℤ) := by
      rw [show (m.log2 + e + 1 : ℤ) = ((m.log2 + 1 : ℕ) : ℤ) + e by push_cast; ring,
        zpow_add₀ two_ne_zero, zpow_natCast]
      refine mul_lt_mul_of_pos_right (rest.trans_le ?_) (two_zpow_pos e)
      exact_mod_cast Nat.lt_log2_self
    refine le_antisymm ?_ ?_
    · apply Int.le_of_lt_add_one
      exact (Int.lt_zpow_iff_log_lt (b := 2) one_lt_two scaled).mp (by exact_mod_cast upper)
    · exact (Int.zpow_le_iff_le_log (b := 2) one_lt_two scaled).mp (by exact_mod_cast lower)
  rw [targetExponent_eq, totalExponent, gridExponent, log]
  congr 1
  ring

/-! ## Rounding -/

theorem shiftToExponent_of_le {m : Nat} {e t : ℤ} (low : t ≤ e) (accuracy : Accuracy) :
    shiftToExponent m e accuracy t = (.ofMantissaAndAccuracy m accuracy, e) := by
  have none : (t - e).toNat = 0 := by omega
  simp only [shiftToExponent, none, Nat.cast_zero, add_zero]
  rfl

theorem shiftToExponent_of_ge {m : Nat} {e t : ℤ} {x : ℚ} {accuracy : Accuracy} (high : e ≤ t)
    (stands : StandsFor (.ofMantissaAndAccuracy m accuracy) x) :
    ∃ em, shiftToExponent m e accuracy t = (em, t) ∧ StandsFor em (x * 2 ^ e / 2 ^ t) := by
  have count : ((t - e).toNat : ℤ) = t - e := Int.toNat_of_nonneg (by omega)
  have scaled : x / 2 ^ (t - e).toNat = x * 2 ^ e / 2 ^ t := by
    rw [← zpow_natCast, count, zpow_sub₀ two_ne_zero, div_div_eq_mul_div]
  refine ⟨ExtendedMantissa.ofMantissaAndAccuracy m accuracy >>> (t - e).toNat, ?_, ?_⟩
  · rw [shiftToExponent, count, add_sub_cancel]
  · rw [← scaled]
    exact stands.shiftRight (t - e).toNat

/-- The second shift of the model: rounding may have carried into one more place. -/
theorem shiftToTargetExponent_rounded {n : Nat} {e : ℤ} (coarse : -1074 ≤ e) (small : n ≤ 2 ^ 53)
    (normal : 2 ^ 52 ≤ n ∨ e = -1074) :
    ∃ em f, shiftToTargetExponent Format.binary64 n e .exact = (em, f) ∧
      InBinade em.mantissa f ∧ (em.mantissa : ℚ) * 2 ^ f = n * 2 ^ e := by
  rw [shiftToTargetExponent, targetExponent_eq, totalExponent]
  rcases small.lt_or_eq with short | full
  · have bits : n.log2 ≤ 52 := by
      rcases Nat.eq_zero_or_pos n with rfl | positive
      · decide
      · exact Nat.le_of_lt_succ ((Nat.log2_lt positive.ne').mpr short)
    refine ⟨_, _, shiftToExponent_of_le (by omega) .exact, ⟨short, coarse, normal⟩, rfl⟩
  · have bits : n.log2 = 53 := by rw [full]; exact Nat.log2_two_pow
    have target : max ((n.log2 : ℤ) + 1 + e - 53) (-1074) = e + 1 := by omega
    have one : (e + 1 - e).toNat = 1 := by omega
    rw [target, full]
    refine ⟨.shiftRightOne (.ofMantissaAndAccuracy (2 ^ 53) .exact), e + 1, ?_,
      ⟨?_, by omega, .inl ?_⟩, ?_⟩
    · simp only [shiftToExponent, one, Nat.cast_one]
      rfl
    · exact Nat.lt_of_le_of_lt (Nat.le_refl (2 ^ 52)) (by norm_num)
    · exact Nat.le_refl (2 ^ 52)
    · change ((2 ^ 52 : ℕ) : ℚ) * 2 ^ (e + 1) = ((2 ^ 53 : ℕ) : ℚ) * 2 ^ e
      rw [zpow_add_one₀ two_ne_zero]
      push_cast
      ring

/-- What the rounding of the model yields from a mantissa that stands for a
positive rational with enough places. -/
theorem roundWithAccuracy_spec {m : Nat} {e : ℤ} {accuracy : Accuracy} {x : ℚ} (sign : Sign)
    (stands : StandsFor (.ofMantissaAndAccuracy m accuracy) x) (positive : 0 < x)
    (target : Format.binary64.targetExponent (totalExponent m e) = gridExponent (x * 2 ^ e))
    (places : e ≤ gridExponent (x * 2 ^ e)) :
    Canonical (roundWithAccuracy Format.binary64 sign m e accuracy) ∧
      (roundWithAccuracy Format.binary64 sign m e accuracy).isFinite = true ∧
      unpackedValue (roundWithAccuracy Format.binary64 sign m e accuracy) =
        signed sign (onGrid (x * 2 ^ e)) := by
  have scaled : 0 < x * 2 ^ e := mul_pos positive (two_zpow_pos e)
  obtain ⟨first, shifted, firstStands⟩ := shiftToExponent_of_ge places stands
  have firstShift : shiftToTargetExponent Format.binary64 m e accuracy =
      (first, gridExponent (x * 2 ^ e)) := by
    rw [shiftToTargetExponent, target]
    exact shifted
  have rounded := firstStands.roundedMantissa
  have small : first.roundedMantissa ≤ 2 ^ 53 := by
    have below : halfEven (x * 2 ^ e / 2 ^ gridExponent (x * 2 ^ e)) ≤ 2 ^ 53 :=
      halfEven_le (by exact_mod_cast (div_grid_lt scaled).le)
    rw [← rounded] at below
    exact_mod_cast below
  have normal : 2 ^ 52 ≤ first.roundedMantissa ∨ gridExponent (x * 2 ^ e) = -1074 := by
    by_cases subnormal : gridExponent (x * 2 ^ e) = -1074
    · exact .inr subnormal
    · left
      have above : 2 ^ 52 ≤ halfEven (x * 2 ^ e / 2 ^ gridExponent (x * 2 ^ e)) :=
        le_halfEven (by exact_mod_cast le_div_grid scaled subnormal)
      rw [← rounded] at above
      exact_mod_cast above
  obtain ⟨second, exponent, secondShift, binade, same⟩ :=
    shiftToTargetExponent_rounded (gridExponent_ge (x * 2 ^ e)) small normal
  have value : (second.mantissa : ℚ) * 2 ^ exponent = onGrid (x * 2 ^ e) := by
    rw [same, onGrid, ← rounded, Int.cast_natCast]
  have result : roundWithAccuracy Format.binary64 sign m e accuracy =
      if some : second.mantissa = 0 then .zero sign
      else .finite sign second.mantissa exponent (Nat.pos_of_ne_zero some) := by
    simp only [roundWithAccuracy, firstShift, secondShift]
  rw [result]
  split
  · rename_i none
    rw [none, Nat.cast_zero, zero_mul] at value
    refine ⟨trivial, rfl, ?_⟩
    rw [← value]
    cases sign
    · exact neg_zero.symm
    · rfl
  · exact ⟨binade, rfl, congrArg (signed sign) value⟩

theorem roundWithAccuracy_exact {m : Nat} (positive : 0 < m) {e : ℤ} (sign : Sign)
    (places : e ≤ Format.binary64.targetExponent (totalExponent m e)) :
    Canonical (roundWithAccuracy Format.binary64 sign m e .exact) ∧
      (roundWithAccuracy Format.binary64 sign m e .exact).isFinite = true ∧
      unpackedValue (roundWithAccuracy Format.binary64 sign m e .exact) =
        signed sign (onGrid (m * 2 ^ e)) := by
  have some : (0 : ℚ) < m := by exact_mod_cast positive
  have target := targetExponent_of_pos positive (le_refl (m : ℚ)) (lt_add_one _) e
  rw [target] at places
  exact roundWithAccuracy_spec sign (.exact m) some target places

theorem log2_shiftLeft {m : Nat} (positive : 0 < m) (count : Nat) :
    (m <<< count).log2 = m.log2 + count := by
  rw [Nat.shiftLeft_eq]
  refine (Nat.log2_eq_iff (Nat.mul_pos positive (Nat.two_pow_pos count)).ne').mpr ⟨?_, ?_⟩
  · rw [pow_add]
    exact Nat.mul_le_mul_right _ (Nat.log2_self_le positive.ne')
  · rw [Nat.add_right_comm, pow_add]
    exact Nat.mul_lt_mul_of_pos_right Nat.lt_log2_self (Nat.two_pow_pos count)

theorem totalExponent_shiftLeft {m : Nat} (positive : 0 < m) (e : ℤ) (count : Nat) :
    totalExponent (m <<< count) (e - count) = totalExponent m e := by
  rw [totalExponent, totalExponent, log2_shiftLeft positive]
  push_cast
  ring

theorem decreaseExponent_spec {m : Nat} (positive : 0 < m) (e t : ℤ) :
    0 < (decreaseExponent m e t).1 ∧ (decreaseExponent m e t).2 = min e t ∧
      totalExponent (decreaseExponent m e t).1 (decreaseExponent m e t).2 = totalExponent m e ∧
      ((decreaseExponent m e t).1 : ℚ) * 2 ^ (decreaseExponent m e t).2 = m * 2 ^ e := by
  refine ⟨?_, ?_, totalExponent_shiftLeft positive e _, ?_⟩
  · rw [decreaseExponent, Nat.shiftLeft_eq]
    positivity
  · simp only [decreaseExponent]
    omega
  · simp only [decreaseExponent, Nat.shiftLeft_eq]
    rw [zpow_sub₀ two_ne_zero, zpow_natCast]
    push_cast
    field_simp

theorem round_spec {m : Nat} (positive : 0 < m) (e : ℤ) (sign : Sign) :
    Canonical (UnpackedFloat.round Format.binary64 sign m e) ∧
      (UnpackedFloat.round Format.binary64 sign m e).isFinite = true ∧
      unpackedValue (UnpackedFloat.round Format.binary64 sign m e) =
        signed sign (onGrid (m * 2 ^ e)) := by
  obtain ⟨some, exponent, total, value⟩ := decreaseExponent_spec positive e
    (Format.binary64.targetExponent (totalExponent m e))
  have places : (decreaseExponent m e (Format.binary64.targetExponent (totalExponent m e))).2 ≤
      Format.binary64.targetExponent (totalExponent
        (decreaseExponent m e (Format.binary64.targetExponent (totalExponent m e))).1
        (decreaseExponent m e (Format.binary64.targetExponent (totalExponent m e))).2) := by
    rw [total, exponent]
    exact min_le_right _ _
  rw [← value]
  exact roundWithAccuracy_exact some sign places

end DockLayout.Binary64
