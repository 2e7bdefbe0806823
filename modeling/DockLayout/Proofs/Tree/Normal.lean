import DockLayout.Proofs.Tree.RoundTrip

/-!
# Areas that were read

Reading takes many forms of a value for the same thing: a direction in capitals, a
ratio beyond the bounds or spelled as a text, an active tab given as a fraction.
Whatever it took, the area it made is written in one form, and reading that form
gives the area back. Nothing is asked of the ratios, since bringing one within bounds
a second time changes nothing, be it a number or not.
-/

set_option autoImplicit false

namespace DockLayout

open Rounding

variable {K : Type} [Scalar K]

namespace Split

section Bounds

variable [Rounding K]

theorem bounded_minRatio : bounded (minRatio K) = minRatio K := by
  have number : IsNumber (minRatio K) := isNumber_of_isFinite isFinite_minRatio
  have greatest : IsNumber (maxRatio K) := isNumber_of_isFinite isFinite_maxRatio
  exact (bounded_eq_self_iff number).mpr
    ⟨(le_iff number number).mpr le_rfl, (le_iff number greatest).mpr minRatio_le_maxRatio⟩

theorem bounded_maxRatio : bounded (maxRatio K) = maxRatio K := by
  have least : IsNumber (minRatio K) := isNumber_of_isFinite isFinite_minRatio
  have number : IsNumber (maxRatio K) := isNumber_of_isFinite isFinite_maxRatio
  exact (bounded_eq_self_iff number).mpr
    ⟨(le_iff least number).mpr minRatio_le_maxRatio, (le_iff number number).mpr le_rfl⟩

/-- A ratio is one of the two bounds or passed both comparisons, which it passes
again. -/
theorem bounded_bounded (ratio : K) : bounded (bounded ratio) = bounded ratio := by
  by_cases less : ratio < minRatio K
  · have raised : bounded ratio = lesser (minRatio K) (maxRatio K) := by
      rw [bounded, clamp, greater, if_pos less]
    rw [raised, lesser]
    split
    · exact bounded_maxRatio
    · exact bounded_minRatio
  · have kept : bounded ratio = lesser ratio (maxRatio K) := by
      rw [bounded, clamp, greater, if_neg less]
    by_cases more : maxRatio K < ratio
    · rw [kept, lesser, if_pos more]
      exact bounded_maxRatio
    · have same : bounded ratio = ratio := by rw [kept, lesser, if_neg more]
      rw [same, same]

theorem boundedRatios_boundedRatios (ratios : List K) :
    boundedRatios (boundedRatios ratios) = boundedRatios ratios := by
  obtain rfl | ⟨first, last, rfl⟩ := List.eq_nil_or_concat ratios
  · rfl
  · rw [List.concat_eq_append, boundedRatios_append, boundedRatios_append, List.map_map]
    congr 1
    exact List.map_congr_left fun ratio _ => bounded_bounded ratio

end Bounds

end Split

namespace Area

/-! ## What is written -/

theorem encode_resize (area : Area K) (rect : Rect K) :
    (area.resize rect).encode = area.encode := by
  induction area generalizing rect with
  | container panel => simp only [resize, encode, Container.encode]
  | split frame children ih =>
    rw [resize, encode, encode, encodeEach_eq, encodeEach_eq, map_resizeEach encode ih]

omit [Scalar K] in
theorem encode_configure (config : Config K) (area : Area K) :
    (area.configure config).encode = area.encode := by
  induction area with
  | container panel => rfl
  | split frame children ih =>
    have each : children.map (encode ∘ configure config) = children.map encode :=
      List.map_congr_left ih
    rw [configure, encode, encode, encodeEach_eq, encodeEach_eq, configureEach_eq, List.map_map,
      each]

/-! ## What is read back -/

variable [Rounding K]

theorem Assembled.decode_encode {area : Area K} (assembled : area.Assembled) :
    decode area.encode = .ok area := by
  induction assembled with
  | container shown =>
    change (Container.decode (Container.encode _)).map Area.container = _
    rw [Container.decode_encode shown]
    rfl
  | @split children ratios direction handle split made each ih =>
    obtain ⟨-, -, laid⟩ := Split.make_eq_ok made
    have written : split.toArea.encode =
        (Area.split ⟨handle, direction, Split.boundedRatios ratios, .zero⟩ children).encode := by
      rw [laid]
      exact encode_resize
        (.split ⟨handle, direction, Split.boundedRatios ratios, .zero⟩ children) .zero
    have head := Split.decodeHead_encode
      ⟨handle, direction, Split.boundedRatios ratios, .zero⟩ children
    have below : Json.decodeEach decode (children.map encode) = .ok (children.map id) :=
      Json.decodeEach_map id ih
    rw [written, decode_split, head, below, List.map_id]
    change (Split.make children (Split.boundedRatios (Split.boundedRatios ratios)) direction
      handle .zero).map Split.toArea = _
    rw [Split.boundedRatios_boundedRatios, made]
    rfl

/-- An area that was read is read again from what is written of it. -/
theorem decode_encode_of_decode {value : Json K} {area : Area K}
    (read : decode value = .ok area) : decode area.encode = .ok area :=
  (decode_assembled value area read).decode_encode

end Area

end DockLayout
