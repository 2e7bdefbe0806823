import DockLayout.Proofs.Binary64.Double

/-!
# What is not a number

Comparisons with what is not a number are false, and arithmetic hands it on. So
do the clamps that keep a ratio within its bounds: of two operands they prefer
the second only when a comparison says so. An infinity is handed on by sums and
products, and becomes no number where it is divided by another one.
-/

set_option autoImplicit false

namespace DockLayout.Binary64

open Float.Model Float.Model.UnpackedFloat

variable {x y : Float}

/-! ## Comparisons -/

theorem not_lt_left (lost : x.isNaN = true) (y : Float) : ¬ x < y := by
  change x.toModel.unpack.isNaN = true at lost
  change ¬ (decide (((x.toModel.unpack.compare y.toModel.unpack) == some .lt) = true)) = true
  generalize x.toModel.unpack = u at lost
  cases u with
  | notANumber => nofun
  | _ => cases lost

theorem not_lt_right (x : Float) (lost : y.isNaN = true) : ¬ x < y := by
  change y.toModel.unpack.isNaN = true at lost
  change ¬ (decide (((x.toModel.unpack.compare y.toModel.unpack) == some .lt) = true)) = true
  generalize x.toModel.unpack = u
  generalize y.toModel.unpack = v at lost
  cases v with
  | notANumber => cases u <;> nofun
  | _ => cases lost

theorem isNaN_lesser (lost : x.isNaN = true) (y : Float) : (lesser x y).isNaN = true := by
  rw [lesser, if_neg (not_lt_right y lost), lost]

theorem isNaN_greater (lost : x.isNaN = true) (y : Float) : (greater x y).isNaN = true := by
  rw [greater, if_neg (not_lt_left lost y), lost]

/-- A clamp does not catch what is not a number. -/
theorem isNaN_clamp (lost : x.isNaN = true) (low high : Float) :
    (clamp x low high).isNaN = true :=
  isNaN_lesser (isNaN_greater lost low) high

theorem eq_one_of_beq (same : (x == 1) = true) : x = 1 := by
  obtain ⟨-, -, same | ⟨-, other⟩ | ⟨-, other⟩⟩ := Float.beq_iff_ne_nan_and_eq.mp same
  · exact same
  · exact absurd other (by decide +kernel)
  · exact absurd other (by decide +kernel)

theorem beq_zero_of_not_finite (endless : x.isFinite = false) : (x == 0) = false := by
  by_contra zero
  obtain ⟨-, -, same | ⟨same, -⟩ | ⟨same, -⟩⟩ :=
    Float.beq_iff_ne_nan_and_eq.mp (eq_true_of_ne_false zero)
  all_goals
    rw [same] at endless
    cases endless

/-! ## Arithmetic -/

section Arithmetic

theorem isNaN_pack {u : UnpackedFloat} (lost : u.isNaN = true) :
    (Float.ofModel (.pack u)).isNaN = true := by
  cases u with
  | notANumber => rfl
  | _ => cases lost

theorem isFinite_pack {u : UnpackedFloat} (endless : u.isFinite = false) :
    (Float.ofModel (.pack u)).isFinite = false := by
  cases u with
  | notANumber => rfl
  | infinity s => cases s <;> rfl
  | _ => cases endless

theorem isFinite_negated (x : Float) : (-x).isFinite = x.isFinite := by
  change (-x).toModel.unpack.isFinite = _
  rw [unpack_neg, isFinite_neg]
  rfl

theorem isNaN_add_right (x : Float) (lost : y.isNaN = true) : (x + y).isNaN = true := by
  change y.toModel.unpack.isNaN = true at lost
  apply isNaN_pack
  generalize x.toModel.unpack = u
  generalize y.toModel.unpack = v at lost
  cases v with
  | notANumber => cases u <;> rfl
  | _ => cases lost

theorem isNaN_sub_right (x : Float) (lost : y.isNaN = true) : (x - y).isNaN = true := by
  change y.toModel.unpack.isNaN = true at lost
  apply isNaN_pack
  generalize x.toModel.unpack = u
  generalize y.toModel.unpack = v at lost
  cases v with
  | notANumber => cases u <;> rfl
  | _ => cases lost

theorem isNaN_sub_left (lost : x.isNaN = true) (y : Float) : (x - y).isNaN = true := by
  change x.toModel.unpack.isNaN = true at lost
  apply isNaN_pack
  generalize x.toModel.unpack = u at lost
  cases u with
  | notANumber => rfl
  | _ => cases lost

theorem isNaN_mul_left (lost : x.isNaN = true) (y : Float) : (x * y).isNaN = true := by
  change x.toModel.unpack.isNaN = true at lost
  apply isNaN_pack
  generalize x.toModel.unpack = u at lost
  cases u with
  | notANumber => rfl
  | _ => cases lost

theorem isFinite_add_left (endless : x.isFinite = false) (y : Float) :
    (x + y).isFinite = false := by
  change x.toModel.unpack.isFinite = false at endless
  apply isFinite_pack
  generalize x.toModel.unpack = u at endless
  generalize y.toModel.unpack = v
  cases u with
  | notANumber => rfl
  | infinity s =>
    cases v with
    | infinity t => cases s <;> cases t <;> rfl
    | _ => rfl
  | _ => cases endless

theorem isFinite_add_right (x : Float) (endless : y.isFinite = false) :
    (x + y).isFinite = false := by
  change y.toModel.unpack.isFinite = false at endless
  apply isFinite_pack
  generalize x.toModel.unpack = u
  generalize y.toModel.unpack = v at endless
  cases v with
  | notANumber => cases u <;> rfl
  | infinity t =>
    cases u with
    | infinity s => cases s <;> cases t <;> rfl
    | _ => rfl
  | _ => cases endless

theorem isFinite_mul_left (endless : x.isFinite = false) (y : Float) :
    (x * y).isFinite = false := by
  change x.toModel.unpack.isFinite = false at endless
  apply isFinite_pack
  generalize x.toModel.unpack = u at endless
  generalize y.toModel.unpack = v
  cases u with
  | notANumber => rfl
  | infinity s => cases v <;> rfl
  | _ => cases endless

theorem isNaN_div_iff (nonzero : (y == 0) = false) :
    (x / y).isNaN = true ↔
      x.isNaN = true ∨ y.isNaN = true ∨ x.isFinite = false ∧ y.isFinite = false := by
  have number {u v : UnpackedFloat} (fine : Number (UnpackedFloat.div Format.binary64 u v)) :
      (Float.ofModel (.pack (UnpackedFloat.div Format.binary64 u v))).isNaN ≠ true :=
    Bool.eq_false_iff.mp (isNaN_of_number fine)
  have some : y.toModel.unpack.isNaN = false → unpackedValue y.toModel.unpack ≠ 0 := by
    intro number none
    have same := (beq_iff number (y := 0) rfl).mpr none
    rw [nonzero] at same
    cases same
  change (Float.ofModel (.pack (UnpackedFloat.div Format.binary64 x.toModel.unpack
    y.toModel.unpack))).isNaN = true ↔ x.toModel.unpack.isNaN = true ∨
      y.toModel.unpack.isNaN = true ∨
      x.toModel.unpack.isFinite = false ∧ y.toModel.unpack.isFinite = false
  generalize x.toModel.unpack = u
  generalize y.toModel.unpack = v at some
  -- The divisor first: a zero is excluded whatever the dividend is.
  cases v with
  | notANumber => exact iff_of_true (isNaN_pack (by cases u <;> rfl)) (.inr (.inl rfl))
  | zero t => exact absurd rfl (some rfl)
  | infinity t =>
    cases u with
    | notANumber => exact iff_of_true (isNaN_pack rfl) (.inl rfl)
    | infinity s => exact iff_of_true (isNaN_pack rfl) (.inr (.inr ⟨rfl, rfl⟩))
    | zero s => exact iff_of_false (number (rounds_div_infinity t rfl).toNumber) nofun
    | finite s m e positive =>
      exact iff_of_false (number (rounds_div_infinity t rfl).toNumber) nofun
  | finite t n f positive =>
    cases u with
    | notANumber => exact iff_of_true (isNaN_pack rfl) (.inl rfl)
    | _ => exact iff_of_false (number (number_div rfl rfl (some rfl))) (by
        simp [UnpackedFloat.isNaN, UnpackedFloat.isFinite])

end Arithmetic

end DockLayout.Binary64
