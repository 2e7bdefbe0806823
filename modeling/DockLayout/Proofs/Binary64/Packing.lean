import DockLayout.Proofs.Binary64.Unpacked

/-!
# Packed doubles

Packing a rounded double and unpacking it again gives it back, unless its
exponent is too large to be stored and it becomes an infinity.
-/

set_option autoImplicit false

namespace DockLayout.Binary64

open Float.Model Float.Model.UnpackedFloat

def Stored : UnpackedFloat → Prop
  | .finite _ m e _ => InBinade m e ∧ e ≤ 971
  | _ => True

/-- An exponent that is too large to be stored makes an infinity. -/
def overflow : UnpackedFloat → UnpackedFloat
  | .finite s m e positive => if e ≤ 971 then .finite s m e positive else .infinity s
  | u => u

theorem Stored.canonical {u : UnpackedFloat} (stored : Stored u) : Canonical u := by
  cases u with
  | finite s m e positive => exact stored.1
  | _ => trivial

/-! ## Magnitudes -/

theorem magnitude_pos {m : Nat} (positive : 0 < m) (e : ℤ) : (0 : ℚ) < m * 2 ^ e :=
  mul_pos (by exact_mod_cast positive) (two_zpow_pos e)

theorem magnitude_lt {m : Nat} (short : m < 2 ^ 53) (e : ℤ) : (m : ℚ) * 2 ^ e < 2 ^ (53 + e) := by
  rw [zpow_add₀ two_ne_zero]
  refine mul_lt_mul_of_pos_right ?_ (two_zpow_pos e)
  exact_mod_cast short

theorem le_magnitude {m : Nat} (full : 2 ^ 52 ≤ m) (e : ℤ) : (2 : ℚ) ^ (52 + e) ≤ m * 2 ^ e := by
  rw [zpow_add₀ two_ne_zero]
  refine mul_le_mul_of_nonneg_right ?_ (two_zpow_pos e).le
  exact_mod_cast full

theorem magnitude_lt_beyond {m : Nat} {e : ℤ} (binade : InBinade m e) (low : e ≤ 971) :
    (m : ℚ) * 2 ^ e < beyond := by
  apply (magnitude_lt binade.short e).trans_le
  unfold beyond
  exact zpow_le_zpow_right₀ one_le_two (by omega)

theorem beyond_le_magnitude {m : Nat} {e : ℤ} (binade : InBinade m e) (high : 971 < e) :
    beyond ≤ (m : ℚ) * 2 ^ e := by
  have full : 2 ^ 52 ≤ m := by
    rcases binade.normal with full | low
    · exact full
    · omega
  refine le_trans ?_ (le_magnitude full e)
  unfold beyond
  exact zpow_le_zpow_right₀ one_le_two (by omega)

theorem unpackedValue_overflow {u : UnpackedFloat} (canonical : Canonical u)
    (finite : u.isFinite = true) :
    unpackedValue (overflow u) = max (-beyond) (min (unpackedValue u) beyond) := by
  have bound := beyond_pos
  cases u with
  | infinity s => cases finite
  | notANumber => cases finite
  | zero s =>
    change (0 : ℚ) = max (-beyond) (min 0 beyond)
    rw [min_eq_left bound.le, max_eq_right (by linarith)]
  | finite s m e positive =>
    have some := magnitude_pos positive e
    rw [overflow]
    split
    · rename_i low
      have less := magnitude_lt_beyond canonical low
      cases s with
      | negative =>
        change -((m : ℚ) * 2 ^ e) = max (-beyond) (min (-(m * 2 ^ e)) beyond)
        rw [min_eq_left (by linarith), max_eq_right (by linarith)]
      | positive =>
        change (m : ℚ) * 2 ^ e = max (-beyond) (min (m * 2 ^ e) beyond)
        rw [min_eq_left less.le, max_eq_right (by linarith)]
    · rename_i high
      have more := beyond_le_magnitude canonical (not_le.mp high)
      cases s with
      | negative =>
        change -beyond = max (-beyond) (min (-(m * 2 ^ e)) beyond)
        rw [min_eq_left (by linarith), max_eq_left (by linarith)]
      | positive =>
        change beyond = max (-beyond) (min (m * 2 ^ e) beyond)
        rw [min_eq_right more, max_eq_right (by linarith)]

theorem round_signed {q : ℚ} (nonneg : 0 ≤ q) (s : Sign) :
    round (signed s q) = max (-beyond) (min (signed s (onGrid q)) beyond) := by
  have bound := beyond_pos
  have grid := onGrid_nonneg nonneg
  cases s with
  | negative =>
    change round (-q) = max (-beyond) (min (-onGrid q) beyond)
    have below : -onGrid q ≤ beyond := by linarith
    rw [round_neg, round_of_nonneg nonneg, magnitude, min_eq_left below, max_neg_neg, min_comm]
  | positive =>
    change round q = max (-beyond) (min (onGrid q) beyond)
    rw [round_of_nonneg nonneg, magnitude, max_eq_right]
    exact le_trans (by linarith) (le_min grid bound.le)

/-! ## Packing and unpacking -/

theorem exponentBias_eq : Format.binary64.exponentBias = 1023 := rfl

theorem toNat_implicit (fraction : BitVec 52) :
    (1#1 ++ fraction).toNat = 2 ^ 52 + fraction.toNat := by
  rw [BitVec.toNat_append, ← Nat.shiftLeft_add_eq_or_of_lt fraction.isLt]
  rfl

theorem stored_unpack (b : BitVec Format.binary64.numBits) :
    Stored (UnpackedFloat.unpack Format.binary64 b) := by
  have fraction : (unpackMantissa b : BitVec 52).toNat < 2 ^ 52 := (unpackMantissa b).isLt
  have exponent : (unpackExponent b : BitVec 11).toNat < 2 ^ 11 := (unpackExponent b).isLt
  rw [UnpackedFloat.unpack]
  simp only
  split
  · split <;> trivial
  · rename_i notLast
    split
    · split
      · trivial
      · rename_i subnormal some
        rw [subnormal]
        exact ⟨⟨lt_trans fraction (by norm_num), by decide, .inr rfl⟩, by decide⟩
    · rename_i normal
      have first : (unpackExponent b : BitVec 11).toNat ≠ 0 :=
        fun none => normal (BitVec.eq_of_toNat_eq none)
      have last : (unpackExponent b : BitVec 11).toNat ≠ 2047 :=
        fun all => notLast (BitVec.eq_of_toNat_eq all)
      refine ⟨⟨?_, ?_, .inl ?_⟩, ?_⟩
      · rw [toNat_implicit]
        omega
      · rw [exponentBias_eq]
        push_cast
        omega
      · rw [toNat_implicit]
        exact Nat.le_add_right _ _
      · rw [exponentBias_eq]
        push_cast
        omega

theorem log2_of_full {m : Nat} (short : m < 2 ^ 53) :
    m.log2 + 1 = Format.binary64.mantissaBits ↔ 2 ^ 52 ≤ m := by
  have width : Format.binary64.mantissaBits = 53 := rfl
  rw [width]
  constructor
  · intro bits
    have same : m.log2 = 52 := by omega
    have some : m ≠ 0 := by
      rintro rfl
      simp at bits
    exact ((Nat.log2_eq_iff some).mp same).1
  · intro full
    have same : m.log2 = 52 := (Nat.log2_eq_iff (by omega)).mpr ⟨full, short⟩
    omega

theorem unpack_normal {m : Nat} {e : ℤ} (s : Sign) (positive : 0 < m) (short : m < 2 ^ 53)
    (full : 2 ^ 52 ≤ m) (coarse : -1074 ≤ e) (low : e ≤ 971) :
    UnpackedFloat.unpack Format.binary64 (packComponents Format.binary64 s
      (BitVec.ofNat 11 (e + 1075).toNat) (BitVec.ofNat 52 m)) = .finite s m e positive := by
  have fraction : (BitVec.ofNat 52 m).toNat = m - 2 ^ 52 := by
    rw [BitVec.toNat_ofNat, Nat.mod_eq_sub_mod full, Nat.mod_eq_of_lt (by omega)]
  have exponent : (BitVec.ofNat 11 (e + 1075).toNat).toNat = (e + 1075).toNat := by
    rw [BitVec.toNat_ofNat, Nat.mod_eq_of_lt (by omega)]
  have notLast : BitVec.ofNat 11 (e + 1075).toNat ≠ -1#11 := by
    intro same
    have value := congrArg BitVec.toNat same
    rw [exponent] at value
    change (e + 1075).toNat = 2047 at value
    omega
  have notFirst : BitVec.ofNat 11 (e + 1075).toNat ≠ 0#11 := by
    intro same
    have value := congrArg BitVec.toNat same
    rw [exponent] at value
    change (e + 1075).toNat = 0 at value
    omega
  rw [UnpackedFloat.unpack]
  simp only [unpackMantissa_packComponents, unpackExponent_packComponents,
    unpackSign_packComponents, Sign.ofBitVec_toBitVec, if_neg notLast, if_neg notFirst,
    UnpackedFloat.finite.injEq, true_and, toNat_implicit, fraction, exponent, exponentBias_eq]
  constructor
  · omega
  · push_cast
    omega

theorem unpack_subnormal {m : Nat} (s : Sign) (positive : 0 < m) (small : m < 2 ^ 52) :
    UnpackedFloat.unpack Format.binary64 (packComponents Format.binary64 s 0#11
      (BitVec.ofNat 52 m)) = .finite s m (-1074) positive := by
  have fraction : (BitVec.ofNat 52 m).toNat = m := by
    rw [BitVec.toNat_ofNat, Nat.mod_eq_of_lt small]
  have some : BitVec.ofNat 52 m ≠ 0#52 := by
    intro same
    have value := congrArg BitVec.toNat same
    rw [fraction] at value
    change m = 0 at value
    omega
  have notLast : (0#11 : BitVec 11) ≠ -1#11 := by decide
  rw [UnpackedFloat.unpack]
  simp only [unpackMantissa_packComponents, unpackExponent_packComponents,
    unpackSign_packComponents, Sign.ofBitVec_toBitVec, if_neg notLast, if_true, dif_neg some,
    UnpackedFloat.finite.injEq, true_and, fraction, exponentBias_eq]
  rfl

theorem unpack_pack {u : UnpackedFloat} (canonical : Canonical u) :
    UnpackedFloat.unpack Format.binary64 (UnpackedFloat.pack Format.binary64 u) = overflow u := by
  cases u with
  | infinity s => cases s <;> rfl
  | notANumber => rfl
  | zero s => cases s <;> rfl
  | finite s m e positive =>
    obtain ⟨short, coarse, normal⟩ := canonical
    have biased : (e + Format.binary64.exponentBias + (52 : ℕ)).toNat = (e + 1075).toNat := by
      rw [exponentBias_eq]
      push_cast
      congr 1
      omega
    rw [UnpackedFloat.pack, overflow]
    simp only [biased]
    by_cases low : e ≤ 971
    · have stored : ¬ 2 ^ 11 ≤ (e + 1075).toNat + 1 := by omega
      rw [if_neg stored, if_pos low]
      by_cases full : 2 ^ 52 ≤ m
      · rw [if_pos ((log2_of_full short).mpr full)]
        exact unpack_normal s positive short full coarse low
      · obtain rfl := normal.resolve_left full
        rw [if_neg (fun bits => full ((log2_of_full short).mp bits))]
        exact unpack_subnormal s positive (not_le.mp full)
    · have large : 2 ^ 11 ≤ (e + 1075).toNat + 1 := by omega
      rw [if_pos large, if_neg low]
      cases s <;> rfl

end DockLayout.Binary64
