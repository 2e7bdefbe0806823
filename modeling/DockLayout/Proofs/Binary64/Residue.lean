import DockLayout.Proofs.Binary64.NearestEven

/-!
# Mantissas with a residue

The logical model of doubles rounds by shifting a mantissa to the right while
two bits remember what was shifted out. The three together stand for a rational
up to the little they need to know, and that is enough to round it.
-/

set_option autoImplicit false

namespace DockLayout.Binary64

open Float.Model.UnpackedFloat

/-- What the round bit and the sticky bit say about the part shifted out. -/
def Residue : Bool → Bool → ℚ → Prop
  | false, false, part => part = 0
  | false, true, part => 0 < part ∧ part < 1 / 2
  | true, false, part => part = 1 / 2
  | true, true, part => 1 / 2 < part ∧ part < 1

def StandsFor (em : ExtendedMantissa) (x : ℚ) : Prop :=
  Residue em.roundBit em.stickyBit (x - em.mantissa)

namespace StandsFor

variable {em : ExtendedMantissa} {x : ℚ}

theorem exact (m : Nat) : StandsFor (.ofMantissaAndAccuracy m .exact) m :=
  sub_self (m : ℚ)

/-- The bits of a quotient: twice its remainder is compared with the divisor. -/
theorem fraction (n d : Nat) (positive : 0 < d) :
    StandsFor (.ofMantissaAndAccuracy (n / d) (accuracyOfFraction (n % d) d)) (n / d : ℚ) := by
  have divisor : (0 : ℚ) < d := by exact_mod_cast positive
  have part : (n : ℚ) / d - (n / d : ℕ) = (n % d : ℕ) / d := by
    rw [sub_eq_iff_eq_add, div_add' _ _ _ divisor.ne']
    congr 1
    exact_mod_cast (Nat.mod_add_div' n d).symm
  have small := Nat.mod_lt n positive
  rw [accuracyOfFraction]
  generalize n % d = r at part small
  split
  · rename_i none
    rw [none, Nat.cast_zero, zero_div] at part
    exact part
  · rename_i some
    have rest : (0 : ℚ) < r := by exact_mod_cast Nat.pos_of_ne_zero some
    cases order : compare (2 * r) d with
    | lt =>
      have less : (2 : ℚ) * r < d := by exact_mod_cast Nat.compare_eq_lt.mp order
      change 0 < (n : ℚ) / d - (n / d : ℕ) ∧ (n : ℚ) / d - (n / d : ℕ) < 1 / 2
      rw [part, div_lt_iff₀ divisor]
      exact ⟨div_pos rest divisor, by linarith⟩
    | eq =>
      have same : (2 : ℚ) * r = d := by exact_mod_cast Nat.compare_eq_eq.mp order
      change (n : ℚ) / d - (n / d : ℕ) = 1 / 2
      rw [part, div_eq_iff divisor.ne']
      linarith
    | gt =>
      have more : (d : ℚ) < 2 * r := by exact_mod_cast Nat.compare_eq_gt.mp order
      have within : (r : ℚ) < d := by exact_mod_cast small
      change 1 / 2 < (n : ℚ) / d - (n / d : ℕ) ∧ (n : ℚ) / d - (n / d : ℕ) < 1
      rw [part, div_lt_one divisor, lt_div_iff₀ divisor]
      exact ⟨by linarith, within⟩

theorem shiftRightOne (stands : StandsFor em x) : StandsFor em.shiftRightOne (x / 2) := by
  obtain ⟨m, roundBit, stickyBit⟩ := em
  have division : (m : ℚ) = 2 * (m / 2 : ℕ) + (m % 2 : ℕ) := by
    exact_mod_cast (Nat.div_add_mod m 2).symm
  change Residue (m % 2 != 0) (roundBit || stickyBit) (x / 2 - (m / 2 : ℕ))
  change Residue roundBit stickyBit (x - m) at stands
  rcases Nat.mod_two_eq_zero_or_one m with even | odd
  · rw [even, Nat.cast_zero] at division
    have bit : (m % 2 != 0) = false := by rw [even]; rfl
    rw [bit]
    cases roundBit <;> cases stickyBit <;>
      simp only [Residue, Bool.or_true, Bool.or_false] at stands ⊢
    · linarith
    · exact ⟨by linarith, by linarith⟩
    · exact ⟨by linarith, by linarith⟩
    · exact ⟨by linarith, by linarith⟩
  · rw [odd, Nat.cast_one] at division
    have bit : (m % 2 != 0) = true := by rw [odd]; rfl
    rw [bit]
    cases roundBit <;> cases stickyBit <;>
      simp only [Residue, Bool.or_true, Bool.or_false] at stands ⊢
    · linarith
    · exact ⟨by linarith, by linarith⟩
    · exact ⟨by linarith, by linarith⟩
    · exact ⟨by linarith, by linarith⟩

theorem shiftRight (stands : StandsFor em x) (count : Nat) :
    StandsFor (em >>> count) (x / 2 ^ count) := by
  change StandsFor (Nat.repeat ExtendedMantissa.shiftRightOne count em) _
  induction count with
  | zero => simpa [Nat.repeat] using stands
  | succ count ih =>
    rw [Nat.repeat, pow_succ, ← div_div]
    exact ih.shiftRightOne

theorem bounds (stands : StandsFor em x) : (em.mantissa : ℚ) ≤ x ∧ x < em.mantissa + 1 := by
  obtain ⟨m, roundBit, stickyBit⟩ := em
  change Residue roundBit stickyBit (x - m) at stands
  change (m : ℚ) ≤ x ∧ x < m + 1
  cases roundBit <;> cases stickyBit <;> simp only [Residue] at stands <;>
    exact ⟨by linarith, by linarith⟩

theorem roundedMantissa (stands : StandsFor em x) : (em.roundedMantissa : ℤ) = halfEven x := by
  obtain ⟨low, high⟩ := stands.bounds
  obtain ⟨m, roundBit, stickyBit⟩ := em
  change Residue roundBit stickyBit (x - m) at stands
  have floor : ⌊x⌋ = m :=
    Int.floor_eq_iff.mpr ⟨by exact_mod_cast low, by exact_mod_cast high⟩
  rw [halfEven, floor]
  push_cast
  cases roundBit <;> cases stickyBit <;> simp only [Residue] at stands
  · rw [if_pos (by linarith)]
    rfl
  · rw [if_pos stands.2]
    rfl
  · rw [if_neg (by linarith), if_neg (by linarith)]
    rfl
  · rw [if_neg (by linarith), if_pos stands.1]
    rfl

end StandsFor

end DockLayout.Binary64
