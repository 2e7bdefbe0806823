import DockLayout.Proofs.Binary64.Packing

/-!
# Operations on unpacked doubles

An operation on finite doubles yields the exact result rounded. Sums and
differences are rounded from an exact mantissa, products from one with no fewer
places than their binade, and quotients from one with a residue.
-/

set_option autoImplicit false

namespace DockLayout.Binary64

open Float.Model Float.Model.UnpackedFloat

/-- A number that can be stored, if only as an infinity. -/
structure Number (u : UnpackedFloat) : Prop where
  canonical : Canonical u
  isNaN : u.isNaN = false

/-- Once stored, it has the value of the rounded rational. -/
structure Rounds (u : UnpackedFloat) (q : ℚ) : Prop extends Number u where
  value : unpackedValue (overflow u) = round q

theorem isNaN_of_isFinite {u : UnpackedFloat} (finite : u.isFinite = true) : u.isNaN = false := by
  cases u with
  | notANumber => cases finite
  | _ => rfl

theorem isNaN_overflow (u : UnpackedFloat) : (overflow u).isNaN = u.isNaN := by
  cases u with
  | finite s m e positive =>
    rw [overflow]
    split <;> rfl
  | _ => rfl

theorem Rounds.of_signed {u : UnpackedFloat} {s : Sign} {q : ℚ} (nonneg : 0 ≤ q)
    (spec : Canonical u ∧ u.isFinite = true ∧ unpackedValue u = signed s (onGrid q)) :
    Rounds u (signed s q) := by
  obtain ⟨canonical, finite, value⟩ := spec
  refine ⟨⟨canonical, isNaN_of_isFinite finite⟩, ?_⟩
  rw [unpackedValue_overflow canonical finite, value, round_signed nonneg]

theorem rounds_zero (s : Sign) : Rounds (.zero s) 0 := by
  refine ⟨⟨trivial, rfl⟩, ?_⟩
  rw [round_of_nonneg (le_refl 0), magnitude_zero]
  rfl

theorem rounds_round {m : Nat} (positive : 0 < m) (e : ℤ) (s : Sign) :
    Rounds (UnpackedFloat.round Format.binary64 s m e) (signed s (m * 2 ^ e)) :=
  .of_signed (magnitude_pos positive e).le (round_spec positive e s)

theorem rounds_normalize (n : ℤ) (e : ℤ) :
    Rounds (UnpackedFloat.normalize Format.binary64 n e .positive) (n * 2 ^ e) := by
  rw [UnpackedFloat.normalize]
  rcases lt_trichotomy n 0 with negative | rfl | positive
  · rw [Int.compare_eq_lt.mpr negative]
    have same : (((-n).toNat : ℕ) : ℚ) = -n := by
      exact_mod_cast Int.toNat_of_nonneg (neg_nonneg.mpr negative.le)
    have rounds := rounds_round (m := (-n).toNat) (by omega) e .negative
    rw [same] at rounds
    rwa [show signed .negative (-(n : ℚ) * 2 ^ e) = n * 2 ^ e by rw [signed]; ring] at rounds
  · rw [Int.compare_eq_eq.mpr rfl, Int.cast_zero, zero_mul]
    exact rounds_zero .positive
  · rw [Int.compare_eq_gt.mpr positive]
    have same : ((n.toNat : ℕ) : ℚ) = n := by
      exact_mod_cast Int.toNat_of_nonneg positive.le
    have rounds := rounds_round (m := n.toNat) (by omega) e .positive
    rwa [same] at rounds

/-! ## Stored doubles -/

theorem Stored.representable {u : UnpackedFloat} (stored : Stored u) :
    Representable (unpackedValue u) := by
  cases u with
  | infinity s =>
    cases s
    · exact representable_beyond.neg
    · exact representable_beyond
  | notANumber => exact ⟨⟨0, 0, by norm_num, by norm_num, by simp [unpackedValue]⟩, by
      rw [unpackedValue, abs_zero]
      exact beyond_pos.le⟩
  | zero s => exact ⟨⟨0, 0, by norm_num, by norm_num, by simp [unpackedValue]⟩, by
      rw [unpackedValue, abs_zero]
      exact beyond_pos.le⟩
  | finite s m e positive =>
    have value : Representable ((m : ℚ) * 2 ^ e) := by
      refine ⟨⟨m, e, ?_, stored.1.coarse, by rw [Int.cast_natCast]⟩, ?_⟩
      · rw [Nat.abs_cast]
        exact_mod_cast stored.1.short.le
      · rw [abs_of_pos (magnitude_pos positive e)]
        exact (magnitude_lt_beyond stored.1 stored.2).le
    cases s
    · exact value.neg
    · exact value

theorem Stored.overflow_eq {u : UnpackedFloat} (stored : Stored u) : overflow u = u := by
  cases u with
  | finite s m e positive => exact if_pos stored.2
  | _ => rfl

theorem Stored.rounds {u : UnpackedFloat} (stored : Stored u) (number : u.isNaN = false) :
    Rounds u (unpackedValue u) :=
  ⟨⟨stored.canonical, number⟩, by rw [stored.overflow_eq, round_eq_self stored.representable]⟩

/-! ## Sums and differences -/

theorem signed_apply (s : Sign) (n : ℤ) (q : ℚ) : signed s (n * q) = (s.apply n : ℤ) * q := by
  cases s
  · change -(n * q) = ((-n : ℤ) : ℚ) * q
    push_cast
    ring
  · rfl

theorem signed_decreaseExponent (s : Sign) {m : Nat} (positive : 0 < m) {e t : ℤ} (low : t ≤ e) :
    (s.apply (decreaseExponent m e t).1 : ℤ) * (2 : ℚ) ^ t = signed s (m * 2 ^ e) := by
  obtain ⟨-, exponent, -, value⟩ := decreaseExponent_spec positive e t
  rw [exponent, min_eq_right low] at value
  rw [← value, ← signed_apply, Int.cast_natCast]

theorem rounds_add {u v : UnpackedFloat} (first : Stored u) (second : Stored v)
    (left : u.isFinite = true) (right : v.isFinite = true) :
    Rounds (UnpackedFloat.add Format.binary64 u v) (unpackedValue u + unpackedValue v) := by
  cases u with
  | infinity s => cases left
  | notANumber => cases left
  | zero s =>
    cases v with
    | infinity t => cases right
    | notANumber => cases right
    | zero t =>
      change Rounds (if s == t then .zero s else .zero .positive) (0 + 0)
      rw [add_zero]
      split
      · exact rounds_zero s
      · exact rounds_zero .positive
    | finite t n f other =>
      change Rounds (.finite t n f other) (0 + _)
      rw [zero_add]
      exact second.rounds rfl
  | finite s m e some =>
    cases v with
    | infinity t => cases right
    | notANumber => cases right
    | zero t =>
      change Rounds (.finite s m e some) (_ + 0)
      rw [add_zero]
      exact first.rounds rfl
    | finite t n f other =>
      change Rounds (UnpackedFloat.normalize Format.binary64 _ (min e f) .positive) _
      rw [unpackedValue, unpackedValue,
        ← signed_decreaseExponent s some (min_le_left e f),
        ← signed_decreaseExponent t other (min_le_right e f), ← add_mul, ← Int.cast_add]
      exact rounds_normalize _ _

theorem sub_eq_add (u v : UnpackedFloat) :
    UnpackedFloat.sub Format.binary64 u v = UnpackedFloat.add Format.binary64 u v.neg := by
  cases u with
  | notANumber => rfl
  | finite s m e some =>
    cases v with
    | finite t n f other =>
      have negated (k : ℤ) : (-t).apply k = -t.apply k := by
        cases t
        · exact (neg_neg k).symm
        · rfl
      simp only [UnpackedFloat.sub, UnpackedFloat.add, UnpackedFloat.neg, negated,
        Int.sub_eq_add_neg]
    | _ => rfl
  | _ => cases v <;> rfl

theorem Stored.neg {u : UnpackedFloat} (stored : Stored u) : Stored u.neg := by
  cases u with
  | finite s m e positive => exact stored
  | _ => trivial

theorem isFinite_neg (u : UnpackedFloat) : u.neg.isFinite = u.isFinite := by
  cases u <;> rfl

theorem isNaN_neg (u : UnpackedFloat) : u.neg.isNaN = u.isNaN := by
  cases u <;> rfl

theorem unpackedValue_neg (u : UnpackedFloat) : unpackedValue u.neg = -unpackedValue u := by
  have negated (s : Sign) (q : ℚ) : signed (-s) q = -signed s q := by
    cases s
    · exact (neg_neg q).symm
    · rfl
  cases u with
  | infinity s => exact negated s beyond
  | notANumber => exact neg_zero.symm
  | zero s => exact neg_zero.symm
  | finite s m e positive => exact negated s _

theorem rounds_sub {u v : UnpackedFloat} (first : Stored u) (second : Stored v)
    (left : u.isFinite = true) (right : v.isFinite = true) :
    Rounds (UnpackedFloat.sub Format.binary64 u v) (unpackedValue u - unpackedValue v) := by
  rw [sub_eq_add, sub_eq_add_neg, ← unpackedValue_neg]
  exact rounds_add first second.neg left ((isFinite_neg v).trans right)

/-! ## Products -/

theorem signed_mul (s t : Sign) (p q : ℚ) :
    signed (s * t) (p * q) = signed s p * signed t q := by
  cases s <;> cases t
  · exact (neg_mul_neg p q).symm
  · exact (neg_mul p q).symm
  · exact (mul_neg p q).symm
  · rfl

theorem product_places {m n : Nat} {e f : ℤ}
    (places : 2 ^ 52 ≤ m * n ∨ e + f ≤ -1074) :
    e + f ≤ Format.binary64.targetExponent (totalExponent (m * n) (e + f)) := by
  rw [targetExponent_eq, totalExponent]
  rcases places with full | low
  · have bits : 52 ≤ (m * n).log2 := (Nat.le_log2 (by omega)).mpr full
    exact le_max_of_le_left (by omega)
  · exact le_max_of_le_right low

theorem rounds_product {m n : Nat} (first : 0 < m) (second : 0 < n) {e f : ℤ} (s t : Sign)
    (places : 2 ^ 52 ≤ m * n ∨ e + f ≤ -1074) :
    Rounds (roundWithAccuracy Format.binary64 (s * t) (m * n) (e + f) .exact)
      (signed s (m * 2 ^ e) * signed t (n * 2 ^ f)) := by
  have positive : 0 < m * n := Nat.mul_pos first second
  have exact := roundWithAccuracy_exact positive (s * t) (product_places places)
  have value : ((m * n : ℕ) : ℚ) * 2 ^ (e + f) = m * 2 ^ e * (n * 2 ^ f) := by
    rw [zpow_add₀ two_ne_zero]
    push_cast
    ring
  rw [value] at exact
  rw [← signed_mul]
  exact .of_signed (mul_pos (magnitude_pos first e) (magnitude_pos second f)).le exact

theorem rounds_mul {u v : UnpackedFloat} (first : Stored u) (second : Stored v)
    (left : u.isFinite = true) (right : v.isFinite = true) :
    Rounds (UnpackedFloat.mul Format.binary64 u v) (unpackedValue u * unpackedValue v) := by
  cases u with
  | infinity s => cases left
  | notANumber => cases left
  | zero s =>
    rw [unpackedValue, zero_mul]
    cases v with
    | infinity t => cases right
    | notANumber => cases right
    | zero t => exact rounds_zero (s * t)
    | finite t n f other => exact rounds_zero (s * t)
  | finite s m e some =>
    cases v with
    | infinity t => cases right
    | notANumber => cases right
    | zero t =>
      change Rounds (.zero (s * t)) (_ * 0)
      rw [mul_zero]
      exact rounds_zero (s * t)
    | finite t n f other =>
      apply rounds_product some other s t
      rcases first.1.normal with full | least
      · exact .inl (full.trans (Nat.le_mul_of_pos_right m other))
      · rcases second.1.normal with full | lowest
        · exact .inl (full.trans (Nat.le_mul_of_pos_left n some))
        · exact .inr (by omega)

/-! ## Quotients -/

theorem signed_div (s t : Sign) (p q : ℚ) :
    signed (s / t) (p / q) = signed s p / signed t q := by
  cases s <;> cases t
  · exact (neg_div_neg_eq p q).symm
  · exact (neg_div q p).symm
  · exact (div_neg p).symm
  · rfl

theorem magnitude_lt_total (m : Nat) (e : ℤ) : (m : ℚ) * 2 ^ e < 2 ^ totalExponent m e := by
  rw [totalExponent, zpow_add₀ two_ne_zero]
  refine mul_lt_mul_of_pos_right ?_ (two_zpow_pos e)
  exact_mod_cast Nat.lt_log2_self (n := m)

theorem total_le_magnitude {m : Nat} (positive : 0 < m) (e : ℤ) :
    (2 : ℚ) ^ (totalExponent m e - 1) ≤ m * 2 ^ e := by
  rw [totalExponent, show (m.log2 + 1 + e - 1 : ℤ) = m.log2 + e by ring, zpow_add₀ two_ne_zero]
  refine mul_le_mul_of_nonneg_right ?_ (two_zpow_pos e).le
  exact_mod_cast Nat.log2_self_le positive.ne'

theorem total_le_quotient {m n : Nat} (first : 0 < m) (second : 0 < n) (e f : ℤ) :
    (2 : ℚ) ^ (totalExponent m e - totalExponent n f - 1) ≤ m * 2 ^ e / (n * 2 ^ f) := by
  rw [le_div_iff₀ (magnitude_pos second f)]
  calc (2 : ℚ) ^ (totalExponent m e - totalExponent n f - 1) * (n * 2 ^ f)
      ≤ 2 ^ (totalExponent m e - totalExponent n f - 1) * 2 ^ totalExponent n f :=
        mul_le_mul_of_nonneg_left (magnitude_lt_total n f).le (two_zpow_pos _).le
    _ = 2 ^ (totalExponent m e - 1) := by
        rw [← zpow_add₀ two_ne_zero]
        congr 1
        ring
    _ ≤ m * 2 ^ e := total_le_magnitude first e

theorem le_gridExponent {q : ℚ} (positive : 0 < q) {t : ℤ} (least : (2 : ℚ) ^ t ≤ q) :
    max (t - 52) (-1074) ≤ gridExponent q := by
  have log : t ≤ Int.log 2 q :=
    (Int.zpow_le_iff_le_log (b := 2) one_lt_two positive).mp (by exact_mod_cast least)
  exact max_le_max_right _ (by omega)

theorem gridExponent_of_small {q : ℚ} (positive : 0 < q) (small : q < 2 ^ (-1021 : ℤ)) :
    gridExponent q = -1074 := by
  have log : Int.log 2 q < -1021 :=
    (Int.lt_zpow_iff_log_lt (b := 2) one_lt_two positive).mp (by exact_mod_cast small)
  exact max_eq_right (by omega)

/-- The quotient of the mantissas, at the exponent that the division chooses,
has enough places, even where it is zero. -/
theorem quotient_target {q : Nat} {x : ℚ} {t e : ℤ} (positive : 0 < x) (whole : (q : ℚ) ≤ x)
    (rest : x < q + 1) (least : (2 : ℚ) ^ (t - 1) ≤ x * 2 ^ e)
    (low : e ≤ max (t - 53) (-1074)) :
    Format.binary64.targetExponent (totalExponent q e) = gridExponent (x * 2 ^ e) ∧
      e ≤ gridExponent (x * 2 ^ e) := by
  have scaled : 0 < x * 2 ^ e := mul_pos positive (two_zpow_pos e)
  have places := le_gridExponent scaled least
  rw [show t - 1 - 52 = t - 53 by ring] at places
  refine ⟨?_, low.trans places⟩
  rcases Nat.eq_zero_or_pos q with rfl | some
  · rw [Nat.cast_zero, zero_add] at rest
    have small : x * 2 ^ e < 2 ^ e := mul_lt_of_lt_one_left (two_zpow_pos e) rest
    have order : t - 1 < e := (zpow_lt_zpow_iff_right₀ one_lt_two).mp (least.trans_lt small)
    have subnormal : e ≤ -1074 := by omega
    have tiny : x * 2 ^ e < 2 ^ (-1021 : ℤ) :=
      small.trans_le (zpow_le_zpow_right₀ one_le_two (by omega))
    rw [gridExponent_of_small scaled tiny, targetExponent_eq, totalExponent]
    exact max_eq_right (by simp only [Nat.log2_zero]; omega)
  · exact targetExponent_of_pos some whole rest e

theorem floor_le_div (a : Nat) {n : Nat} (positive : 0 < n) : ((a / n : ℕ) : ℚ) ≤ a / n := by
  rw [le_div_iff₀ (by exact_mod_cast positive)]
  exact_mod_cast Nat.div_mul_le_self a n

theorem div_lt_floor_add_one (a : Nat) {n : Nat} (positive : 0 < n) :
    (a / n : ℚ) < (a / n : ℕ) + 1 := by
  rw [div_lt_iff₀' (by exact_mod_cast positive)]
  exact_mod_cast Nat.lt_mul_div_succ a positive

theorem rounds_quotient {m n : Nat} (first : 0 < m) (second : 0 < n) (e f : ℤ) (s t : Sign) :
    Rounds (roundWithAccuracy Format.binary64 (s / t) (divCore Format.binary64 m e n f).1
        (divCore Format.binary64 m e n f).2.1 (divCore Format.binary64 m e n f).2.2)
      (signed s (m * 2 ^ e) / signed t (n * 2 ^ f)) := by
  have divisor : (0 : ℚ) < n := by exact_mod_cast second
  simp only [divCore]
  generalize chosen : min (e - f)
    (Format.binary64.targetExponent (totalExponent m e - totalExponent n f)) = target
  have low : target ≤ e - f := chosen ▸ min_le_left _ _
  have fine : target ≤ max (totalExponent m e - totalExponent n f - 53) (-1074) := by
    rw [← targetExponent_eq]
    exact chosen ▸ min_le_right _ _
  have count : ((e - f - target).toNat : ℤ) = e - f - target := Int.toNat_of_nonneg (by omega)
  generalize (e - f - target).toNat = shift at count
  have shifted : 0 < m <<< shift := by
    rw [Nat.shiftLeft_eq]
    exact Nat.mul_pos first (Nat.two_pow_pos shift)
  have value : ((m <<< shift : ℕ) / n : ℚ) * 2 ^ target = m * 2 ^ e / (n * 2 ^ f) := by
    have exponent : e = shift + target + f := by omega
    rw [exponent, zpow_add₀ two_ne_zero, zpow_add₀ two_ne_zero, zpow_natCast, Nat.shiftLeft_eq]
    push_cast
    have power := two_zpow_pos f
    field_simp
  have positive : (0 : ℚ) < (m <<< shift : ℕ) / n := div_pos (by exact_mod_cast shifted) divisor
  have stands := StandsFor.fraction (m <<< shift) n second
  have least := total_le_quotient first second e f
  rw [← value] at least
  obtain ⟨same, places⟩ := quotient_target positive (floor_le_div _ second)
    (div_lt_floor_add_one _ second) least fine
  have spec := roundWithAccuracy_spec (s / t) stands positive same places
  rw [value] at spec
  rw [← signed_div]
  exact .of_signed (div_pos (magnitude_pos first e) (magnitude_pos second f)).le spec

theorem rounds_div {u v : UnpackedFloat} (left : u.isFinite = true) (right : v.isFinite = true)
    (nonzero : unpackedValue v ≠ 0) :
    Rounds (UnpackedFloat.div Format.binary64 u v) (unpackedValue u / unpackedValue v) := by
  cases v with
  | infinity t => cases right
  | notANumber => cases right
  | zero t => exact absurd rfl nonzero
  | finite t n f other =>
    cases u with
    | infinity s => cases left
    | notANumber => cases left
    | zero s =>
      rw [show unpackedValue (.zero s) = 0 from rfl, zero_div]
      exact rounds_zero (s / t)
    | finite s m e some => exact rounds_quotient some other e f s t

/-! ## Infinite operands -/

theorem number_add {u v : UnpackedFloat} (stored : Stored u) (other : Stored v)
    (left : u.isFinite = true) (right : v.isNaN = false) :
    Number (UnpackedFloat.add Format.binary64 u v) := by
  cases v with
  | notANumber => cases right
  | infinity t =>
    cases u with
    | infinity s => cases left
    | notANumber => cases left
    | _ => exact ⟨trivial, rfl⟩
  | _ => exact (rounds_add stored other left rfl).toNumber

theorem number_sub {u v : UnpackedFloat} (stored : Stored u) (other : Stored v)
    (left : u.isFinite = true) (right : v.isNaN = false) :
    Number (UnpackedFloat.sub Format.binary64 u v) := by
  rw [sub_eq_add]
  exact number_add stored other.neg left ((isNaN_neg v).trans right)

theorem number_div {u v : UnpackedFloat} (left : u.isNaN = false) (right : v.isFinite = true)
    (nonzero : unpackedValue v ≠ 0) :
    Number (UnpackedFloat.div Format.binary64 u v) := by
  cases u with
  | notANumber => cases left
  | infinity s =>
    cases v with
    | infinity t => cases right
    | notANumber => cases right
    | zero t => exact absurd rfl nonzero
    | finite t n f other => exact ⟨trivial, rfl⟩
  | _ => exact (rounds_div rfl right nonzero).toNumber

theorem rounds_div_infinity {u : UnpackedFloat} (t : Sign) (left : u.isFinite = true) :
    Rounds (UnpackedFloat.div Format.binary64 u (.infinity t)) 0 := by
  cases u with
  | infinity s => cases left
  | notANumber => cases left
  | zero s => exact rounds_zero (s / t)
  | finite s m e some => exact rounds_zero (s / t)

end DockLayout.Binary64
