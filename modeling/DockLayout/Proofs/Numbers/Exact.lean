import DockLayout.Proofs.Numbers.Bounded
import DockLayout.Proofs.Numbers.Splice
import DockLayout.Proofs.Tree.Loaded

/-!
# Exact arithmetic

Over the rationals every scalar is a finite number and nothing is rounded. Here
ordered ratios are what their name says, and a split that is read has them,
since its ratios have been brought within bounds and found in order.
-/

set_option autoImplicit false

namespace DockLayout.Exact

open Rounding

instance rounding : Rounding ℚ where
  IsNumber _ := True
  IsFinite _ := True
  IsModest _ := True
  value := id
  round := id
  isNumber_of_isFinite := fun _ => trivial
  isFinite_of_isModest := fun _ => trivial
  lt_iff := fun _ _ => Iff.rfl
  le_iff := fun _ _ => Iff.rfl
  beq_iff := fun _ _ => beq_iff_eq
  isFinite_of_le := fun _ _ _ => trivial
  isModest_of_le := fun _ _ _ => trivial
  isFinite_of_le_modest := fun _ _ _ => trivial
  round_mono := monotone_id
  round_value := fun _ => rfl
  round_near := by
    intro x q _
    rw [id_eq, sub_self, abs_zero]
    exact abs_nonneg _
  isModest_zero := trivial
  isFinite_one := trivial
  value_zero := rfl
  value_one := rfl
  isFinite_minRatio := trivial
  isFinite_maxRatio := trivial
  minRatio_pos := by decide +kernel
  minRatio_le_maxRatio := by decide +kernel
  maxRatio_lt_one := by decide +kernel
  isNumber_natCast := fun _ => trivial
  one_le_natCast := fun positive => Nat.one_le_cast.mpr positive
  isFinite_ones := fun _ => trivial
  add := fun _ _ => ⟨trivial, rfl⟩
  sub := fun _ _ => ⟨trivial, rfl⟩
  mul := fun _ _ => ⟨trivial, rfl⟩
  div := by
    intro y _ positive
    refine ⟨y⁻¹, inv_nonneg.mpr positive.le, (inv_mul_cancel₀ positive.ne').le, ?_⟩
    intro x _
    exact ⟨trivial, div_eq_mul_inv x y⟩
  isNumber_neg := fun _ => trivial
  isNumber_add := fun _ _ => trivial
  isNumber_sub := fun _ _ => trivial
  isNumber_div := fun _ _ _ => trivial

variable {ratios : List ℚ}

theorem ordered_iff :
    Ordered ratios ↔ ratios.Pairwise (· ≤ ·) ∧ (∀ ratio ∈ ratios, 0 ≤ ratio ∧ ratio ≤ 1) ∧
      ratios.getLast? = some 1 := by
  constructor
  · intro ordered
    refine ⟨ordered.ascending, ?_, ordered.last⟩
    intro ratio listed
    have fraction := ordered.fraction ratio listed
    exact ⟨fraction.nonneg, fraction.le_one⟩
  · rintro ⟨ascending, fraction, last⟩
    refine ⟨ascending, ?_, last⟩
    intro ratio listed
    obtain ⟨nonneg, below⟩ := fraction ratio listed
    exact ⟨trivial, nonneg, below⟩

theorem pairwise_zero (ordered : Ordered ratios) : (0 :: ratios).Pairwise (· ≤ ·) := by
  obtain ⟨ascending, fraction, -⟩ := ordered_iff.mp ordered
  refine List.pairwise_cons.mpr ⟨?_, ascending⟩
  intro ratio listed
  exact (fraction ratio listed).1

theorem getLastD_of_ordered (ordered : Ordered ratios) : ratios.getLastD 0 = 1 := by
  rw [List.getLastD_eq_getLast?, ordered.last]
  rfl

theorem ordered_of_getLastD (ascending : (0 :: ratios).Pairwise (· ≤ ·))
    (final : ratios.getLastD 0 = 1) : Ordered ratios := by
  obtain ⟨above, later⟩ := List.pairwise_cons.mp ascending
  obtain rfl | ⟨front, last, rfl⟩ := ratios.eq_nil_or_concat'
  · exact absurd final zero_ne_one
  · rw [List.getLastD_concat] at final
    subst final
    refine ordered_iff.mpr ⟨later, ?_, List.getLast?_concat⟩
    intro ratio listed
    refine ⟨above ratio listed, ?_⟩
    rcases List.mem_append.mp listed with early | single
    · exact (List.pairwise_append.mp later).2.2 ratio early 1 (List.mem_singleton_self 1)
    · exact (List.mem_singleton.mp single).le

/-! ## Ratios that were read -/

theorem ordered_of_made {children : List (Area ℚ)} {direction : Direction} {handle : SplitHandle}
    {rect : Rect ℚ} {split : Split ℚ}
    (made : Split.make children (Split.boundedRatios ratios) direction handle rect = .ok split) :
    Ordered (Split.boundedRatios ratios) := by
  obtain ⟨ascending, last, present, one⟩ := Split.make_checked made
  rw [beq_iff_eq.mp one] at present
  exact .of_checked (fun _ _ => trivial) ascending present

end DockLayout.Exact
