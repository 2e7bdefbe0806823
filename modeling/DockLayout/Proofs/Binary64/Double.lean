import DockLayout.Proofs.Binary64.Comparison
import DockLayout.Proofs.Binary64.Operations
import DockLayout.Proofs.Numbers.Rounding

/-!
# Doubles are rounding arithmetic

The value of a double is that of its unpacked form. Its comparisons compare
values and its operations round exact results, so all that is proved of ratios
in rounding arithmetic holds on doubles.
-/

set_option autoImplicit false

namespace DockLayout.Binary64

open Float.Model Float.Model.UnpackedFloat

def value (x : Float) : ℚ := unpackedValue x.toModel.unpack

theorem stored (x : Float) : Stored x.toModel.unpack := stored_unpack _

theorem isNaN_of_number {u : UnpackedFloat} (number : Number u) :
    (Float.ofModel (.pack u)).isNaN = false := by
  change (UnpackedFloat.unpack Format.binary64 (UnpackedFloat.pack Format.binary64 u)).isNaN = _
  rw [unpack_pack number.canonical, isNaN_overflow, number.isNaN]

theorem value_of_rounds {u : UnpackedFloat} {q : ℚ} (rounds : Rounds u q) :
    (Float.ofModel (.pack u)).isNaN = false ∧ value (.ofModel (.pack u)) = round q := by
  refine ⟨isNaN_of_number rounds.toNumber, ?_⟩
  change unpackedValue
    (UnpackedFloat.unpack Format.binary64 (UnpackedFloat.pack Format.binary64 u)) = _
  rw [unpack_pack rounds.canonical, rounds.value]

/-! ## Order -/

section Order

variable {x y : Float}

theorem compare_value (left : x.isNaN = false) (right : y.isNaN = false) :
    x.toModel.compare y.toModel = some (compare (value x) (value y)) :=
  compare_spec (stored x) (stored y) left right

theorem lt_iff (left : x.isNaN = false) (right : y.isNaN = false) :
    x < y ↔ value x < value y := by
  change (decide (((x.toModel.compare y.toModel) == some .lt) = true)) = true ↔ _
  rw [compare_value left right, ← compare_lt_iff_lt]
  cases compare (value x) (value y) <;> decide

theorem le_iff (left : x.isNaN = false) (right : y.isNaN = false) :
    x ≤ y ↔ value x ≤ value y := by
  change (decide (((x.toModel.compare y.toModel).any (·.isLE)) = true)) = true ↔ _
  rw [compare_value left right, ← compare_le_iff_le]
  cases compare (value x) (value y) <;> decide

theorem beq_iff (left : x.isNaN = false) (right : y.isNaN = false) :
    (x == y) = true ↔ value x = value y := by
  change ((x.toModel.compare y.toModel) == some .eq) = true ↔ _
  rw [compare_value left right, ← compare_eq_iff_eq (a := value x)]
  cases compare (value x) (value y) <;> decide

theorem isNaN_of_le (order : x ≤ y) : y.isNaN = false := by
  change (decide (((x.toModel.unpack.compare y.toModel.unpack).any (·.isLE)) = true)) = true
    at order
  change y.toModel.unpack.isNaN = false
  generalize x.toModel.unpack = u at order
  generalize y.toModel.unpack = v at order
  cases v with
  | notANumber => cases u <;> cases order
  | _ => rfl

end Order

/-! ## Finite doubles -/

theorem abs_infinity (s : Sign) : |unpackedValue (.infinity s)| = beyond := by
  cases s
  · exact (abs_neg beyond).trans (abs_of_pos beyond_pos)
  · exact abs_of_pos beyond_pos

theorem isFinite_iff {x : Float} (number : x.isNaN = false) :
    x.isFinite = true ↔ |value x| < beyond := by
  have within := (stored x).within
  change x.toModel.unpack.isNaN = false at number
  change x.toModel.unpack.isFinite = true ↔ |unpackedValue x.toModel.unpack| < beyond
  generalize x.toModel.unpack = u at number within
  cases u with
  | infinity s =>
    rw [abs_infinity]
    exact ⟨nofun, fun less => absurd less (lt_irrefl _)⟩
  | notANumber => cases number
  | _ => exact ⟨fun finite => abs_lt.mpr (within finite), fun _ => rfl⟩

theorem round_value (x : Float) : round (value x) = value x :=
  round_eq_self (stored x).representable

/-- A bound far enough from the infinities for sums of a few extents. -/
def modestLimit : Float := Float.ofBits 0x7FB0000000000000

theorem value_modestLimit : value modestLimit = 2 ^ (1020 : ℤ) := by
  have unpacked : modestLimit.toModel.unpack = .finite .positive (2 ^ 52) 968 (by decide) := rfl
  rw [value, unpacked, unpackedValue, signed, Nat.cast_pow, Nat.cast_ofNat, ← zpow_natCast,
    ← zpow_add₀ two_ne_zero]
  rfl

theorem unpack_neg (x : Float) : (-x).toModel.unpack = x.toModel.unpack.neg := by
  have negated := (stored x).neg
  change UnpackedFloat.unpack Format.binary64
    (UnpackedFloat.pack Format.binary64 x.toModel.unpack.neg) = _
  rw [unpack_pack negated.canonical, negated.overflow_eq]

theorem value_neg (x : Float) : value (-x) = -value x := by
  rw [value, unpack_neg, unpackedValue_neg]
  rfl

theorem isNaN_negated (x : Float) : (-x).isNaN = x.isNaN := by
  change (-x).toModel.unpack.isNaN = _
  rw [unpack_neg, isNaN_neg]
  rfl

def Modest (x : Float) : Prop := -modestLimit ≤ x ∧ x ≤ modestLimit

instance (x : Float) : Decidable (Modest x) := inferInstanceAs (Decidable (_ ∧ _))

theorem modest_iff {x : Float} : Modest x ↔ x.isNaN = false ∧ |value x| ≤ 2 ^ (1020 : ℤ) := by
  have limit : modestLimit.isNaN = false := rfl
  have negated : (-modestLimit).isNaN = false := (isNaN_negated _).trans limit
  have bounds (number : x.isNaN = false) : Modest x ↔ |value x| ≤ 2 ^ (1020 : ℤ) := by
    rw [Modest, le_iff negated number, le_iff number limit, value_neg, value_modestLimit, abs_le]
  constructor
  · intro modest
    have number := isNaN_of_le modest.1
    exact ⟨number, (bounds number).mp modest⟩
  · rintro ⟨number, small⟩
    exact (bounds number).mpr small

/-! ## Natural numbers -/

theorem natCast_lt_beyond {n : Nat} (small : n < 2 ^ 53) : (n : ℚ) < beyond := by
  have below : (n : ℚ) < 2 ^ 53 := by exact_mod_cast small
  apply below.trans_le
  rw [beyond, ← zpow_natCast]
  exact zpow_le_zpow_right₀ one_le_two (by norm_num)

theorem representable_natCast {n : Nat} (small : n < 2 ^ 53) : Representable (n : ℚ) := by
  refine ⟨⟨n, 0, ?_, by norm_num, by simp⟩, ?_⟩
  · rw [Nat.abs_cast]
    exact_mod_cast small.le
  · rw [Nat.abs_cast]
    exact (natCast_lt_beyond small).le

theorem value_small {n : Nat} (small : n < 2 ^ 53) :
    (n.toUInt64.toFloat).isNaN = false ∧ value n.toUInt64.toFloat = n := by
  have rounds := rounds_normalize (n : ℤ) 0
  have same : n.toUInt64.toNat = n := by
    rw [Nat.toUInt64, UInt64.toNat_ofNat', Nat.mod_eq_of_lt (by omega)]
  obtain ⟨number, exact⟩ := value_of_rounds rounds
  rw [zpow_zero, mul_one, Int.cast_natCast, round_eq_self (representable_natCast small)] at exact
  have converted : n.toUInt64.toFloat =
      .ofModel (.pack (UnpackedFloat.normalize Format.binary64 (n : ℤ) 0 .positive)) := by
    rw [UInt64.toFloat, Float.Model.ofUInt64, UnpackedFloat.ofUInt64, same]
    rfl
  rw [converted]
  exact ⟨number, exact⟩

theorem value_unit : value (Float.ofBits 0x3FF0000000000000) = 1 := by
  have unpacked : (Float.ofBits 0x3FF0000000000000).toModel.unpack =
      .finite .positive (2 ^ 52) (-52) (by decide) := rfl
  rw [value, unpacked, unpackedValue, signed, Nat.cast_pow, Nat.cast_ofNat, ← zpow_natCast,
    ← zpow_add₀ two_ne_zero]
  rfl

theorem rounds_large {n : Nat} (large : 2 ^ 53 ≤ n) :
    Rounds (UnpackedFloat.ofScientific Format.binary64 n 0) n := by
  have some : 0 < n := by omega
  have shifted : n <<< 53 = n * 2 ^ 53 := Nat.shiftLeft_eq n 53
  have full : 2 ^ 52 ≤ n <<< 53 * 1 := by omega
  have exponents : (0 : ℤ) < 2 ^ Format.binary64.exponentBits := by decide
  have converted : UnpackedFloat.ofScientific Format.binary64 n 0 =
      roundWithAccuracy Format.binary64 (.positive * .positive) (n <<< 53 * 1) (-53 + 0)
        .exact := by
    rw [UnpackedFloat.ofScientific, dif_neg some.ne', if_neg (by decide), if_neg (by omega),
      if_pos (le_refl 0)]
    rfl
  have total : signed .positive ((n <<< 53 : ℕ) * (2 : ℚ) ^ (-53 : ℤ)) *
      signed .positive ((1 : ℕ) * (2 : ℚ) ^ (0 : ℤ)) = n := by
    rw [signed, signed, shifted]
    push_cast
    rw [zpow_neg]
    field_simp
    norm_num
  rw [converted, ← total]
  exact rounds_product (by omega) one_pos .positive .positive (.inl full)

/-- A natural number is converted by rounding it, however large it is. -/
theorem value_natural (n : Nat) :
    (Float.ofNat n).isNaN = false ∧ value (Float.ofNat n) = round n := by
  change (Float.ofScientific n false 0).isNaN = false ∧
    value (Float.ofScientific n false 0) = round n
  rw [Float.ofScientific]
  split
  · rename_i fast
    obtain ⟨number, exact⟩ := value_small fast.1
    have finite : n.toUInt64.toFloat.isFinite = true := by
      rw [isFinite_iff number, exact, Nat.abs_cast]
      exact natCast_lt_beyond fast.1
    have rounds := rounds_mul (stored n.toUInt64.toFloat)
      (stored (Float.ofBits 0x3FF0000000000000)) finite rfl
    obtain ⟨number, same⟩ := value_of_rounds rounds
    change _ = round (value n.toUInt64.toFloat * value (Float.ofBits 0x3FF0000000000000)) at same
    rw [exact, value_unit, mul_one] at same
    exact ⟨number, same⟩
  · rename_i slow
    have large : 2 ^ 53 ≤ n := by omega
    exact value_of_rounds (rounds_large large)

/-! ## Operations -/

section Operations

variable {x y : Float}

theorem value_add (left : x.isFinite = true) (right : y.isFinite = true) :
    (x + y).isNaN = false ∧ value (x + y) = round (value x + value y) :=
  value_of_rounds (rounds_add (stored x) (stored y) left right)

theorem value_sub (left : x.isFinite = true) (right : y.isFinite = true) :
    (x - y).isNaN = false ∧ value (x - y) = round (value x - value y) :=
  value_of_rounds (rounds_sub (stored x) (stored y) left right)

theorem value_mul (left : x.isFinite = true) (right : y.isFinite = true) :
    (x * y).isNaN = false ∧ value (x * y) = round (value x * value y) :=
  value_of_rounds (rounds_mul (stored x) (stored y) left right)

theorem value_div (right : y.isNaN = false) (positive : 0 < value y) :
    ∃ factor : ℚ, 0 ≤ factor ∧ factor * value y ≤ 1 ∧ ∀ x : Float, x.isFinite = true →
      (x / y).isNaN = false ∧ value (x / y) = round (value x * factor) := by
  cases finite : y.isFinite with
  | true =>
    refine ⟨(value y)⁻¹, (inv_pos.mpr positive).le, (inv_mul_cancel₀ positive.ne').le, ?_⟩
    intro x left
    rw [← div_eq_mul_inv]
    exact value_of_rounds (rounds_div left finite positive.ne')
  | false =>
    refine ⟨0, le_refl 0, by rw [zero_mul]; exact zero_le_one, ?_⟩
    intro x left
    rw [mul_zero]
    change y.toModel.unpack.isNaN = false at right
    change y.toModel.unpack.isFinite = false at finite
    change (Float.ofModel (.pack (UnpackedFloat.div Format.binary64 x.toModel.unpack
      y.toModel.unpack))).isNaN = false ∧ value (Float.ofModel (.pack (UnpackedFloat.div
      Format.binary64 x.toModel.unpack y.toModel.unpack))) = round 0
    generalize y.toModel.unpack = v at right finite
    cases v with
    | notANumber => cases right
    | infinity t => exact value_of_rounds (rounds_div_infinity t left)
    | zero t => cases finite
    | finite t n f other => cases finite

end Operations

/-! ## Rounding arithmetic -/

theorem isFinite_of_abs_le {x y : Float} (number : x.isNaN = false) (finite : y.isFinite = true)
    (smaller : |value x| ≤ |value y|) : x.isFinite = true := by
  have bound := (isFinite_iff (isNaN_of_isFinite finite)).mp finite
  exact (isFinite_iff number).mpr (smaller.trans_lt bound)

theorem isFinite_of_modest {x y : Float} (number : x.isNaN = false) (modest : Modest y)
    (smaller : |value x| ≤ 8 * |value y|) : x.isFinite = true := by
  have bound := (modest_iff.mp modest).2
  rw [isFinite_iff number]
  calc |value x| ≤ 8 * |value y| := smaller
    _ ≤ 8 * 2 ^ (1020 : ℤ) := mul_le_mul_of_nonneg_left bound (by norm_num)
    _ = 2 ^ (1023 : ℤ) := by
        rw [show (1023 : ℤ) = 3 + 1020 by norm_num, zpow_add₀ two_ne_zero]
        norm_num
    _ < beyond := by
        unfold beyond
        exact zpow_lt_zpow_right₀ one_lt_two (by norm_num)

/-- The double from which on not every integer is one. -/
def lastInteger : Float := Float.ofBits 0x4340000000000000

/-- A sum of ones stops growing there. -/
theorem total_ones (n : Nat) :
    (total (List.replicate n (1.0 : Float))).isFinite = true ∧
      0 ≤ value (total (List.replicate n (1.0 : Float))) ∧
      value (total (List.replicate n (1.0 : Float))) ≤ value lastInteger := by
  have one : value 1.0 = 1 := value_unit
  have stuck : value (lastInteger + 1.0) = value lastInteger :=
    (beq_iff rfl rfl).mp (by decide +kernel)
  rw [(value_add rfl rfl).2, one] at stuck
  have limit : lastInteger.isFinite = true := rfl
  induction n with
  | zero => exact ⟨rfl, le_refl _, (le_iff rfl rfl).mp (by decide +kernel)⟩
  | succ n ih =>
    obtain ⟨finite, nonneg, below⟩ := ih
    have next : total (List.replicate (n + 1) (1.0 : Float)) =
        total (List.replicate n (1.0 : Float)) + 1.0 := by
      rw [total, List.replicate_succ', List.foldl_append]
      rfl
    obtain ⟨number, same⟩ := value_add finite (y := 1.0) rfl
    rw [next]
    have more : 0 ≤ value (total (List.replicate n (1.0 : Float)) + 1.0) := by
      rw [same, one, ← round_eq_self (a := 0) (stored 0.0).representable]
      exact round_mono (by linarith)
    have less : value (total (List.replicate n (1.0 : Float)) + 1.0) ≤ value lastInteger := by
      rw [same, one, ← stuck]
      exact round_mono (by linarith)
    refine ⟨isFinite_of_abs_le number limit ?_, more, less⟩
    rwa [abs_of_nonneg more, abs_of_nonneg (more.trans less)]

instance rounding : Rounding Float where
  IsNumber x := x.isNaN = false
  IsFinite x := x.isFinite = true
  IsModest := Modest
  value := value
  round := round
  isNumber_of_isFinite := isNaN_of_isFinite
  isFinite_of_isModest := fun modest =>
    isFinite_of_modest (modest_iff.mp modest).1 modest (le_mul_of_one_le_left (abs_nonneg _)
      (by norm_num))
  lt_iff := lt_iff
  le_iff := le_iff
  beq_iff := beq_iff
  isFinite_of_le := isFinite_of_abs_le
  isModest_of_le := fun number modest smaller =>
    modest_iff.mpr ⟨number, smaller.trans (modest_iff.mp modest).2⟩
  isFinite_of_le_modest := isFinite_of_modest
  round_mono := round_mono
  round_value := fun {x} _ => round_value x
  round_near := fun {x} q _ => round_near q (stored x).representable
  isModest_zero := by decide +kernel
  isFinite_one := rfl
  value_zero := rfl
  value_one := value_unit
  isFinite_minRatio := rfl
  isFinite_maxRatio := rfl
  minRatio_pos := (lt_iff (x := 0.0) rfl rfl).mp (by decide +kernel)
  minRatio_le_maxRatio := (le_iff rfl rfl).mp (by decide +kernel)
  maxRatio_lt_one :=
    ((lt_iff (x := maxRatio Float) (y := 1.0) rfl rfl).mp (by decide +kernel)).trans_eq value_unit
  isNumber_natCast := fun n => (value_natural n).1
  one_le_natCast := fun {n} some => by
    change 1 ≤ value (Float.ofNat n)
    rw [(value_natural n).2, ← round_eq_self (a := 1) (value_unit ▸ (stored _).representable)]
    exact round_mono (by exact_mod_cast some)
  isFinite_ones := fun n => (total_ones n).1
  add := value_add
  sub := value_sub
  mul := value_mul
  div := value_div
  isNumber_neg := fun {x} number => (isNaN_negated x).trans number
  isNumber_add := fun {x y} left right =>
    isNaN_of_number (number_add (stored x) (stored y) left right)
  isNumber_sub := fun {x y} left right =>
    isNaN_of_number (number_sub (stored x) (stored y) left right)
  isNumber_div := fun left right nonzero => isNaN_of_number (number_div left right nonzero)

end DockLayout.Binary64
