import DockLayout.Proofs.Binary64.NotANumber

/-!
# Sums with infinities

An infinity swallows whatever is added to it, so a sum grows with its second operand as
long as the first is finite. What lies between a place and its sum with a length stays
there when the length grows.
-/

set_option autoImplicit false

namespace DockLayout.Binary64

open Float.Model Float.Model.UnpackedFloat

variable {x y z p : Float}

theorem value_pack {u : UnpackedFloat} (number : Number u) :
    value (.ofModel (.pack u)) = unpackedValue (overflow u) := by
  change unpackedValue
    (UnpackedFloat.unpack Format.binary64 (UnpackedFloat.pack Format.binary64 u)) = _
  rw [unpack_pack number.canonical]

theorem number_infinity (s : Sign) : Number (.infinity s) := ⟨trivial, rfl⟩

theorem abs_value_le (x : Float) : |value x| ≤ beyond := by
  have within := (stored x).within
  change |unpackedValue x.toModel.unpack| ≤ beyond
  generalize x.toModel.unpack = u at within
  cases u with
  | infinity s => exact (abs_infinity s).le
  | notANumber => exact (abs_zero (α := ℚ)).trans_le beyond_pos.le
  | _ => exact (abs_lt.mpr (within rfl)).le

theorem value_of_endless (number : x.isNaN = false) (endless : x.isFinite = false) :
    value x = beyond ∨ value x = -beyond := by
  have far : beyond ≤ |value x| := by
    rw [← not_lt, ← isFinite_iff number, endless]
    exact Bool.false_ne_true
  exact eq_or_eq_neg_of_abs_eq (le_antisymm (abs_value_le x) far)

theorem value_add_of_endless (endless : x.isFinite = false) (number : (x + y).isNaN = false) :
    value (x + y) = value x := by
  change (Float.ofModel (.pack (UnpackedFloat.add Format.binary64 x.toModel.unpack
    y.toModel.unpack))).isNaN = false at number
  change value (.ofModel (.pack (UnpackedFloat.add Format.binary64 x.toModel.unpack
    y.toModel.unpack))) = unpackedValue x.toModel.unpack
  change x.toModel.unpack.isFinite = false at endless
  generalize x.toModel.unpack = u at endless number
  generalize y.toModel.unpack = v at number
  cases u with
  | notANumber =>
    rw [isNaN_pack (by cases v <;> rfl)] at number
    cases number
  | infinity s =>
    cases v with
    | notANumber =>
      rw [isNaN_pack rfl] at number
      cases number
    | infinity t =>
      cases s <;> cases t
      · exact value_pack (number_infinity _)
      · cases number
      · cases number
      · exact value_pack (number_infinity _)
    | _ => exact value_pack (number_infinity s)
  | _ => cases endless

theorem value_add_endless (finite : x.isFinite = true) (number : y.isNaN = false)
    (endless : y.isFinite = false) : (x + y).isNaN = false ∧ value (x + y) = value y := by
  change (Float.ofModel (.pack (UnpackedFloat.add Format.binary64 x.toModel.unpack
    y.toModel.unpack))).isNaN = false ∧ value (.ofModel (.pack (UnpackedFloat.add
      Format.binary64 x.toModel.unpack y.toModel.unpack))) = unpackedValue y.toModel.unpack
  change x.toModel.unpack.isFinite = true at finite
  change y.toModel.unpack.isNaN = false at number
  change y.toModel.unpack.isFinite = false at endless
  generalize x.toModel.unpack = u at finite
  generalize y.toModel.unpack = v at number endless
  cases v with
  | notANumber => cases number
  | infinity t =>
    have swallows : UnpackedFloat.add Format.binary64 u (.infinity t) = .infinity t := by
      cases u with
      | infinity s => cases finite
      | notANumber => cases finite
      | _ => rfl
    rw [swallows]
    exact ⟨isNaN_of_number (number_infinity t), value_pack (number_infinity t)⟩
  | _ => cases endless

theorem value_add_le_add (finite : x.isFinite = true) (left : y.isNaN = false)
    (right : z.isNaN = false) (order : value y ≤ value z) :
    (x + z).isNaN = false ∧ value (x + y) ≤ value (x + z) := by
  have top := (abs_le.mp (abs_value_le (x + y))).2
  cases more : z.isFinite with
  | false =>
    obtain ⟨number, whole⟩ := value_add_endless finite right more
    refine ⟨number, ?_⟩
    rw [whole]
    rcases value_of_endless right more with high | low
    · rw [high]
      exact top
    · have least := (abs_le.mp (abs_value_le y)).1
      have same : value y = -beyond := le_antisymm (low ▸ order) least
      have endless : y.isFinite = false := by
        rw [← Bool.not_eq_true, isFinite_iff left, same, abs_neg, abs_of_pos beyond_pos]
        exact lt_irrefl _
      rw [(value_add_endless finite left endless).2]
      exact order
  | true =>
    obtain ⟨number, whole⟩ := value_add finite more
    refine ⟨number, ?_⟩
    rw [whole]
    cases less : y.isFinite with
    | true =>
      rw [(value_add finite less).2]
      exact round_mono (add_le_add_right order (value x))
    | false =>
      rw [(value_add_endless finite left less).2, ← whole]
      rcases value_of_endless left less with high | low
      · have under := (abs_lt.mp ((isFinite_iff right).mp more)).2
        rw [high] at order
        exact absurd order (not_le.mpr under)
      · rw [low]
        exact (abs_le.mp (abs_value_le (x + z))).1

theorem isNaN_left_of_le (order : x ≤ y) : x.isNaN = false := by
  change (decide (((x.toModel.unpack.compare y.toModel.unpack).any (·.isLE)) = true)) = true
    at order
  change x.toModel.unpack.isNaN = false
  generalize x.toModel.unpack = u at order
  cases u with
  | notANumber => cases order
  | _ => rfl

theorem lt_add_of_not_lt (start : x ≤ p) (below : p < x + y) (order : ¬ z < y)
    (number : z.isNaN = false) : p < x + z := by
  have point : p.isNaN = false := isNaN_of_le start
  have corner : x.isNaN = false := isNaN_left_of_le start
  have sum : (x + y).isNaN = false :=
    Bool.eq_false_iff.mpr fun lost => not_lt_right p lost below
  have length : y.isNaN = false :=
    Bool.eq_false_iff.mpr fun lost => Bool.eq_false_iff.mp sum (isNaN_add_right x lost)
  rw [le_iff corner point] at start
  rw [lt_iff point sum] at below
  rw [lt_iff number length, not_lt] at order
  cases finite : x.isFinite with
  | false =>
    rw [value_add_of_endless finite sum] at below
    exact absurd below (not_lt.mpr start)
  | true =>
    obtain ⟨whole, more⟩ := value_add_le_add finite length number order
    rw [lt_iff point whole]
    exact below.trans_le more

end DockLayout.Binary64
