import Mathlib.Algebra.Order.Floor.Ring
import Mathlib.Data.Int.Log
import Mathlib.Data.Rat.Floor
import Mathlib.Tactic.FieldSimp
import Mathlib.Tactic.Linarith
import Mathlib.Tactic.NormNum
import Mathlib.Tactic.Positivity
import Mathlib.Tactic.Ring

/-!
# Rounding to the nearest double

A positive rational is rounded on the grid of its binade, which ends at the grid
of the subnormals, and what lies beyond the greatest binade is rounded to its
end. The result is nearest among all representable values; monotonicity and the
fixed points follow from that.
-/

set_option autoImplicit false

namespace DockLayout.Binary64

/-! ## Integers -/

/-- The nearest integer, and the even one of two. -/
def halfEven (x : ℚ) : ℤ :=
  let low := ⌊x⌋
  if x - low < 1 / 2 then low else if 1 / 2 < x - low then low + 1 else low + low % 2

theorem abs_halfEven_sub_le (x : ℚ) : |(halfEven x : ℚ) - x| ≤ 1 / 2 := by
  have above := Int.floor_le x
  have below := Int.lt_floor_add_one x
  rw [halfEven]
  split
  · rw [abs_le]
    constructor <;> linarith
  · split
    · push_cast
      rw [abs_le]
      constructor <;> linarith
    · rcases Int.emod_two_eq_zero_or_one ⌊x⌋ with even | odd
      · rw [even, add_zero, abs_le]
        constructor <;> linarith
      · rw [odd, abs_le]
        push_cast
        constructor <;> linarith

theorem halfEven_near (x : ℚ) (other : ℤ) : |(halfEven x : ℚ) - x| ≤ |(other : ℚ) - x| := by
  rcases eq_or_ne other (halfEven x) with rfl | different
  · exact le_refl _
  · have apart : (1 : ℚ) ≤ |(other : ℚ) - halfEven x| := by
      have gap : 1 ≤ |other - halfEven x| := Int.one_le_abs (sub_ne_zero.mpr different)
      exact_mod_cast gap
    have close := abs_halfEven_sub_le x
    have triangle := abs_sub_le (other : ℚ) x (halfEven x)
    rw [abs_sub_comm x] at triangle
    linarith

theorem halfEven_intCast (n : ℤ) : halfEven (n : ℚ) = n := by
  have near := halfEven_near (n : ℚ) n
  rw [sub_self, abs_zero] at near
  have same := sub_eq_zero.mp (abs_eq_zero.mp (le_antisymm near (abs_nonneg _)))
  exact_mod_cast same

theorem halfEven_le {x : ℚ} {n : ℤ} (below : x ≤ n) : halfEven x ≤ n := by
  by_contra beyond
  have more : (n : ℚ) + 1 ≤ halfEven x := by exact_mod_cast not_le.mp beyond
  have near := halfEven_near x n
  rw [abs_of_nonneg (by linarith), abs_of_nonneg (by linarith)] at near
  linarith

theorem le_halfEven {x : ℚ} {n : ℤ} (above : (n : ℚ) ≤ x) : n ≤ halfEven x := by
  by_contra beyond
  have less : (halfEven x : ℚ) + 1 ≤ n := by exact_mod_cast not_le.mp beyond
  have near := halfEven_near x n
  rw [abs_of_nonpos (by linarith), abs_of_nonpos (by linarith)] at near
  linarith

/-! ## The grid of a binade -/

def gridExponent (q : ℚ) : ℤ := max (Int.log 2 q - 52) (-1074)

def onGrid (q : ℚ) : ℚ := halfEven (q / 2 ^ gridExponent q) * 2 ^ gridExponent q

theorem two_zpow_pos (e : ℤ) : (0 : ℚ) < 2 ^ e := zpow_pos two_pos e

theorem log_spec {q : ℚ} (positive : 0 < q) :
    (2 : ℚ) ^ Int.log 2 q ≤ q ∧ q < 2 ^ (Int.log 2 q + 1) := by
  constructor
  · exact_mod_cast Int.zpow_log_le_self (b := 2) one_lt_two positive
  · exact_mod_cast Int.lt_zpow_succ_log_self (b := 2) one_lt_two q

theorem gridExponent_ge (q : ℚ) : -1074 ≤ gridExponent q := le_max_right _ _

/-- On its grid, a rational has at most 53 binary places before the point. -/
theorem div_grid_lt {q : ℚ} (positive : 0 < q) : q / 2 ^ gridExponent q < 2 ^ 53 := by
  rw [div_lt_iff₀ (two_zpow_pos _)]
  apply (log_spec positive).2.trans_le
  rw [← zpow_natCast, ← zpow_add₀ two_ne_zero]
  apply zpow_le_zpow_right₀ one_le_two
  have large : Int.log 2 q - 52 ≤ gridExponent q := le_max_left _ _
  push_cast
  linarith

theorem le_div_grid {q : ℚ} (positive : 0 < q) (normal : gridExponent q ≠ -1074) :
    2 ^ 52 ≤ q / 2 ^ gridExponent q := by
  have same : gridExponent q = Int.log 2 q - 52 := by
    rcases max_choice (Int.log 2 q - 52) (-1074) with first | second
    · exact first
    · exact absurd second normal
  rw [le_div_iff₀ (two_zpow_pos _), ← zpow_natCast, ← zpow_add₀ two_ne_zero]
  refine le_trans (zpow_le_zpow_right₀ one_le_two ?_) (log_spec positive).1
  rw [same]
  push_cast
  linarith

theorem onGrid_zero : onGrid 0 = 0 := by
  have rounded : halfEven ((0 : ℚ) / 2 ^ gridExponent 0) = 0 := by
    rw [zero_div]
    exact_mod_cast halfEven_intCast 0
  rw [onGrid, rounded, Int.cast_zero, zero_mul]

theorem onGrid_near_multiple (q : ℚ) (n : ℤ) :
    |onGrid q - q| ≤ |n * 2 ^ gridExponent q - q| := by
  have positive := two_zpow_pos (gridExponent q)
  have scaled : ∀ point : ℚ, |point * 2 ^ gridExponent q - q| =
      |point - q / 2 ^ gridExponent q| * 2 ^ gridExponent q := by
    intro point
    rw [← abs_of_pos positive, ← abs_mul, abs_of_pos positive, sub_mul,
      div_mul_cancel₀ q positive.ne']
  rw [onGrid, scaled, scaled]
  exact mul_le_mul_of_nonneg_right (halfEven_near _ n) positive.le

/-! ## Representable values -/

@[irreducible] def beyond : ℚ := 2 ^ (1024 : ℤ)

theorem beyond_pos : 0 < beyond := by
  unfold beyond
  exact two_zpow_pos 1024

/-- A multiple of a power of two with a mantissa of 53 bits, no finer than the
subnormals and no larger than the bound of an infinity. -/
structure Representable (a : ℚ) : Prop where
  multiple : ∃ n e : ℤ, |n| ≤ 2 ^ 53 ∧ -1074 ≤ e ∧ a = n * 2 ^ e
  bounded : |a| ≤ beyond

theorem Representable.neg {a : ℚ} (representable : Representable a) : Representable (-a) := by
  obtain ⟨⟨n, e, small, coarse, rfl⟩, bounded⟩ := representable
  refine ⟨⟨-n, e, by rwa [abs_neg], coarse, by push_cast; ring⟩, ?_⟩
  rwa [abs_neg]

theorem representable_beyond : Representable beyond := by
  refine ⟨⟨1, 1024, by norm_num, by norm_num, ?_⟩, (abs_of_pos beyond_pos).le⟩
  rw [beyond, Int.cast_one, one_mul]

/-- Nothing with a mantissa of 53 bits is closer than the grid point. -/
theorem onGrid_near {q : ℚ} (positive : 0 < q) {n e : ℤ} (small : |n| ≤ 2 ^ 53)
    (coarse : -1074 ≤ e) : |onGrid q - q| ≤ |n * 2 ^ e - q| := by
  rcases le_or_gt (gridExponent q) e with aligned | finer
  · have multiple : (n : ℚ) * 2 ^ e =
        ((n * 2 ^ (e - gridExponent q).toNat : ℤ) : ℚ) * 2 ^ gridExponent q := by
      have split : e = (e - gridExponent q).toNat + gridExponent q := by omega
      nth_rewrite 1 [split]
      rw [zpow_add₀ two_ne_zero, zpow_natCast]
      push_cast
      ring
    rw [multiple]
    exact onGrid_near_multiple q _
  · -- The value is below the binade, whose lower end is on the grid.
    have same : gridExponent q = Int.log 2 q - 52 := by
      rcases max_choice (Int.log 2 q - 52) (-1074) with first | second
      · exact first
      · exact absurd (finer.trans_eq second) (not_lt.mpr coarse)
    have value : (n : ℚ) * 2 ^ e ≤ 2 ^ (gridExponent q + 52) := by
      have mantissa : (n : ℚ) ≤ 2 ^ 53 := by exact_mod_cast (le_abs_self n).trans small
      calc (n : ℚ) * 2 ^ e ≤ 2 ^ 53 * 2 ^ e :=
            mul_le_mul_of_nonneg_right mantissa (two_zpow_pos e).le
        _ = 2 ^ (53 + e) := by
            rw [← zpow_natCast, ← zpow_add₀ two_ne_zero]
            norm_cast
        _ ≤ 2 ^ (gridExponent q + 52) := zpow_le_zpow_right₀ one_le_two (by omega)
    have lower : (2 : ℚ) ^ (gridExponent q + 52) ≤ q := by
      rw [same, sub_add_cancel]
      exact (log_spec positive).1
    have grid : (2 : ℚ) ^ (gridExponent q + 52) =
        ((2 ^ 52 : ℤ) : ℚ) * 2 ^ gridExponent q := by
      rw [add_comm, zpow_add₀ two_ne_zero]
      norm_num
    have near := onGrid_near_multiple q (2 ^ 52)
    rw [← grid, abs_of_nonpos (sub_nonpos.mpr lower)] at near
    rw [abs_of_nonpos (sub_nonpos.mpr (value.trans lower))]
    linarith

theorem onGrid_nonneg {q : ℚ} (nonneg : 0 ≤ q) : 0 ≤ onGrid q := by
  have scaled : ((0 : ℤ) : ℚ) ≤ q / 2 ^ gridExponent q := by
    rw [Int.cast_zero]
    exact div_nonneg nonneg (two_zpow_pos _).le
  have rounded : (0 : ℚ) ≤ halfEven (q / 2 ^ gridExponent q) := by
    exact_mod_cast le_halfEven scaled
  exact mul_nonneg rounded (two_zpow_pos _).le

/-! ## Rounding -/

def magnitude (q : ℚ) : ℚ := min (onGrid q) beyond

def round (q : ℚ) : ℚ := if q < 0 then -magnitude (-q) else magnitude q

theorem magnitude_zero : magnitude 0 = 0 := by
  rw [magnitude, onGrid_zero]
  exact min_eq_left beyond_pos.le

theorem magnitude_representable {q : ℚ} (nonneg : 0 ≤ q) : Representable (magnitude q) := by
  have positive := onGrid_nonneg nonneg
  have nonnegative : 0 ≤ magnitude q := le_min positive beyond_pos.le
  refine ⟨?_, by rw [abs_of_nonneg nonnegative]; exact min_le_right _ _⟩
  rcases min_choice (onGrid q) beyond with grid | bound
  · rw [magnitude, grid]
    refine ⟨halfEven (q / 2 ^ gridExponent q), gridExponent q, ?_, gridExponent_ge q, rfl⟩
    rcases nonneg.eq_or_lt with rfl | some
    · rw [zero_div]
      have none := halfEven_intCast 0
      rw [Int.cast_zero] at none
      rw [none]
      norm_num
    · have low : ((0 : ℤ) : ℚ) ≤ q / 2 ^ gridExponent q := by
        rw [Int.cast_zero]
        exact div_nonneg nonneg (two_zpow_pos _).le
      have high : q / 2 ^ gridExponent q ≤ ((2 ^ 53 : ℤ) : ℚ) := by
        exact_mod_cast (div_grid_lt some).le
      rw [abs_of_nonneg (le_halfEven low)]
      exact halfEven_le high
  · rw [magnitude, bound]
    exact representable_beyond.multiple

theorem magnitude_near {q : ℚ} (nonneg : 0 ≤ q) {a : ℚ} (representable : Representable a) :
    |magnitude q - q| ≤ |a - q| := by
  rcases nonneg.eq_or_lt with rfl | positive
  · rw [magnitude_zero, sub_zero, abs_zero]
    exact abs_nonneg _
  · obtain ⟨⟨n, e, small, coarse, rfl⟩, bounded⟩ := representable
    have near := onGrid_near positive small coarse
    rcases le_total (onGrid q) beyond with inside | outside
    · rwa [magnitude, min_eq_left inside]
    · rw [magnitude, min_eq_right outside]
      rcases le_total q beyond with below | above
      · -- Being nearest, the grid point is not beyond the bound on the other side of it.
        obtain ⟨⟨m, f, mantissa, exponent, same⟩, -⟩ := representable_beyond
        have closer := onGrid_near positive mantissa exponent
        rw [← same, abs_of_nonneg (by linarith), abs_of_nonneg (by linarith)] at closer
        have equal : onGrid q = beyond := le_antisymm (by linarith) outside
        rwa [← equal]
      · have less := (le_abs_self _).trans bounded
        rw [abs_of_nonpos (by linarith), abs_of_nonpos (by linarith)]
        linarith

theorem round_representable (q : ℚ) : Representable (round q) := by
  unfold round
  split
  · rename_i negative
    exact (magnitude_representable (neg_nonneg.mpr negative.le)).neg
  · rename_i nonneg
    exact magnitude_representable (not_lt.mp nonneg)

theorem round_near (q : ℚ) {a : ℚ} (representable : Representable a) :
    |round q - q| ≤ |a - q| := by
  unfold round
  split
  · rename_i negative
    have near := magnitude_near (neg_nonneg.mpr negative.le) representable.neg
    rwa [show -a - -q = -(a - q) by ring, abs_neg,
      show magnitude (-q) - -q = -(-magnitude (-q) - q) by ring, abs_neg] at near
  · rename_i nonneg
    exact magnitude_near (not_lt.mp nonneg) representable

theorem round_eq_self {a : ℚ} (representable : Representable a) : round a = a := by
  have near := round_near a representable
  rw [sub_self, abs_zero] at near
  exact sub_eq_zero.mp (abs_eq_zero.mp (le_antisymm near (abs_nonneg _)))

theorem round_mono : Monotone round := by
  intro first second order
  rcases order.eq_or_lt with rfl | less
  · exact le_refl _
  · by_contra reversed
    -- Both rounded values are nearest, so they cannot be in the wrong order.
    have wrong := not_le.mp reversed
    have left := round_near first (round_representable second)
    have right := round_near second (round_representable first)
    have first_sq := sq_le_sq.mpr left
    have second_sq := sq_le_sq.mpr right
    nlinarith [mul_pos (sub_pos.mpr wrong) (sub_pos.mpr less)]

theorem round_of_nonneg {q : ℚ} (nonneg : 0 ≤ q) : round q = magnitude q := by
  rw [round, if_neg (not_lt.mpr nonneg)]

theorem round_neg (q : ℚ) : round (-q) = -round q := by
  rcases lt_trichotomy q 0 with negative | rfl | positive
  · rw [round, if_neg (by linarith), round, if_pos negative, neg_neg]
  · rw [neg_zero, round_of_nonneg (le_refl 0), magnitude_zero, neg_zero]
  · rw [round, if_pos (by linarith), neg_neg, round_of_nonneg positive.le]

end DockLayout.Binary64
