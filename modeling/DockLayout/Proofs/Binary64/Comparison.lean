import DockLayout.Proofs.Binary64.Packing

/-!
# Comparing doubles

The model compares the fields of two unpacked doubles. As each of them has the
form of its binade, this compares their values.
-/

set_option autoImplicit false

namespace DockLayout.Binary64

open Float.Model Float.Model.UnpackedFloat

theorem magnitude_lt_of_exponent {m n : Nat} {e f : ℤ} (first : InBinade m e)
    (second : InBinade n f) (less : e < f) : (m : ℚ) * 2 ^ e < n * 2 ^ f := by
  have full : 2 ^ 52 ≤ n := by
    rcases second.normal with full | least
    · exact full
    · exact absurd first.coarse (not_le.mpr (less.trans_eq least))
  calc (m : ℚ) * 2 ^ e < 2 ^ (53 + e) := magnitude_lt first.short e
    _ ≤ 2 ^ (52 + f) := zpow_le_zpow_right₀ one_le_two (by omega)
    _ ≤ n * 2 ^ f := le_magnitude full f

theorem compare_magnitude {m n : Nat} {e f : ℤ} (first : InBinade m e) (second : InBinade n f) :
    (compare e f).then (compare m n) = compare ((m : ℚ) * 2 ^ e) (n * 2 ^ f) := by
  rcases lt_trichotomy e f with less | rfl | more
  · rw [compare_lt_iff_lt.mpr less, Ordering.lt_then,
      compare_lt_iff_lt.mpr (magnitude_lt_of_exponent first second less)]
  · have positive := two_zpow_pos e
    rw [compare_eq_iff_eq.mpr rfl, Ordering.eq_then]
    rcases lt_trichotomy m n with less | rfl | more
    · have scaled : (m : ℚ) * 2 ^ e < n * 2 ^ e :=
        mul_lt_mul_of_pos_right (by exact_mod_cast less) positive
      rw [compare_lt_iff_lt.mpr less, compare_lt_iff_lt.mpr scaled]
    · rw [compare_eq_iff_eq.mpr rfl, compare_eq_iff_eq.mpr rfl]
    · have scaled : (n : ℚ) * 2 ^ e < m * 2 ^ e :=
        mul_lt_mul_of_pos_right (by exact_mod_cast more) positive
      rw [compare_gt_iff_gt.mpr more, compare_gt_iff_gt.mpr scaled]
  · rw [compare_gt_iff_gt.mpr more, Ordering.gt_then,
      compare_gt_iff_gt.mpr (magnitude_lt_of_exponent second first more)]

theorem compare_neg (x y : ℚ) : compare (-x) (-y) = (compare x y).swap := by
  rcases lt_trichotomy x y with less | rfl | more
  · rw [compare_lt_iff_lt.mpr less, compare_gt_iff_gt.mpr (neg_lt_neg less)]
    rfl
  · rw [compare_eq_iff_eq.mpr rfl, compare_eq_iff_eq.mpr rfl]
    rfl
  · rw [compare_gt_iff_gt.mpr more, compare_lt_iff_lt.mpr (neg_lt_neg more)]
    rfl

theorem neg_beyond_lt : -beyond < beyond := by
  linarith [beyond_pos]

theorem Stored.within {u : UnpackedFloat} (stored : Stored u) (finite : u.isFinite = true) :
    -beyond < unpackedValue u ∧ unpackedValue u < beyond := by
  have bound := beyond_pos
  cases u with
  | infinity s => cases finite
  | notANumber => cases finite
  | zero s => exact ⟨neg_neg_of_pos bound, bound⟩
  | finite s m e positive =>
    have some := magnitude_pos positive e
    have less := magnitude_lt_beyond stored.1 stored.2
    cases s with
    | negative =>
      change -beyond < -((m : ℚ) * 2 ^ e) ∧ -((m : ℚ) * 2 ^ e) < beyond
      exact ⟨neg_lt_neg less, by linarith⟩
    | positive =>
      change -beyond < (m : ℚ) * 2 ^ e ∧ (m : ℚ) * 2 ^ e < beyond
      exact ⟨by linarith, less⟩

theorem compare_spec {u v : UnpackedFloat} (first : Stored u) (second : Stored v)
    (left : u.isNaN = false) (right : v.isNaN = false) :
    u.compare v = some (compare (unpackedValue u) (unpackedValue v)) := by
  have bound := beyond_pos
  cases u with
  | notANumber => cases left
  | infinity s =>
    cases v with
    | notANumber => cases right
    | infinity t =>
      cases s <;> cases t
      · exact congrArg some (compare_eq_iff_eq.mpr rfl).symm
      · exact congrArg some (compare_lt_iff_lt.mpr neg_beyond_lt).symm
      · exact congrArg some (compare_gt_iff_gt.mpr neg_beyond_lt).symm
      · exact congrArg some (compare_eq_iff_eq.mpr rfl).symm
    | zero t =>
      cases s
      · exact congrArg some (compare_lt_iff_lt.mpr (second.within rfl).1).symm
      · exact congrArg some (compare_gt_iff_gt.mpr (second.within rfl).2).symm
    | finite t n f some =>
      cases s
      · exact congrArg Option.some (compare_lt_iff_lt.mpr (second.within rfl).1).symm
      · exact congrArg Option.some (compare_gt_iff_gt.mpr (second.within rfl).2).symm
  | zero s =>
    cases v with
    | notANumber => cases right
    | infinity t =>
      cases t
      · exact congrArg some (compare_gt_iff_gt.mpr (first.within rfl).1).symm
      · exact congrArg some (compare_lt_iff_lt.mpr (first.within rfl).2).symm
    | zero t => exact congrArg some (compare_eq_iff_eq.mpr rfl).symm
    | finite t n f some =>
      have positive := magnitude_pos some f
      cases t
      · exact congrArg Option.some (compare_gt_iff_gt.mpr (neg_neg_of_pos positive)).symm
      · exact congrArg Option.some (compare_lt_iff_lt.mpr positive).symm
  | finite s m e some =>
    have positive := magnitude_pos some e
    cases v with
    | notANumber => cases right
    | infinity t =>
      cases t
      · exact congrArg Option.some (compare_gt_iff_gt.mpr (first.within rfl).1).symm
      · exact congrArg Option.some (compare_lt_iff_lt.mpr (first.within rfl).2).symm
    | zero t =>
      cases s
      · exact congrArg Option.some (compare_lt_iff_lt.mpr (neg_neg_of_pos positive)).symm
      · exact congrArg Option.some (compare_gt_iff_gt.mpr positive).symm
    | finite t n f other =>
      have positive' := magnitude_pos other f
      have same := compare_magnitude first.1 second.1
      cases s <;> cases t
      · change Option.some ((compare e f).then (compare m n)).swap =
          Option.some (compare (-((m : ℚ) * 2 ^ e)) (-(n * 2 ^ f)))
        rw [compare_neg, same]
      · exact congrArg Option.some
          (compare_lt_iff_lt.mpr ((neg_neg_of_pos positive).trans positive')).symm
      · exact congrArg Option.some
          (compare_gt_iff_gt.mpr ((neg_neg_of_pos positive').trans positive)).symm
      · exact congrArg Option.some same

end DockLayout.Binary64
