import DockLayout.Proofs.Binary64.Ratios

/-!
# Rectangles of areas that were read

An area that was read has not been placed: its rectangle is the zero rectangle, and
so are all those below it. This is not a matter of course on doubles, where zero times
a fraction could be a negative zero, and zero times what is no number is none. But a
ratio that is no number is passed over where the zero rectangle is cut.
-/

set_option autoImplicit false

namespace DockLayout

open Rounding

variable {K : Type} [Scalar K] [Rounding K]

/-! ## Shares of nothing -/

variable (K) in
/-- Zero stays the same zero in the products that place the parts of a rectangle. -/
structure ZeroAbsorbs : Prop where
  add_zero : (0 : K) + 0 = 0
  mul_zero : (0 : K) * 0 = 0
  mul_of_pos : ∀ {x : K}, IsFinite x → 0 < x → 0 * x = 0

/-- A fraction that is the zero itself or positive, and so no other zero. -/
structure IsShare (x : K) : Prop where
  fraction : IsFraction x
  sign : x = 0 ∨ 0 < x

/-- A ratio that gets no room and leaves the boundary before it where it is, as one does
that is no number. -/
def IsIdle (ratio : K) : Prop := ∀ previous : K, ¬ previous < ratio ∧ ¬ 0 < ratio - previous

namespace IsShare

variable {previous ratio : K}

theorem zero : IsShare (0 : K) := ⟨isFraction_zero, .inl rfl⟩

theorem zero_mul (absorbs : ZeroAbsorbs K) {x : K} (share : IsShare x) : 0 * x = 0 := by
  rcases share.sign with rfl | positive
  · exact absorbs.mul_zero
  · exact absorbs.mul_of_pos share.fraction.finite positive

theorem greater (share : IsShare previous) (fraction : IsFraction ratio) :
    IsShare (greater previous ratio) := by
  have before := isNumber_of_isFinite share.fraction.finite
  have after := isNumber_of_isFinite fraction.finite
  rw [DockLayout.greater]
  split
  · rename_i less
    refine ⟨fraction, .inr ((lt_iff (isNumber_of_isFinite isFinite_zero) after).mpr ?_)⟩
    rw [value_zero]
    exact share.fraction.nonneg.trans_lt ((lt_iff before after).mp less)
  · exact share

theorem span (first : IsFraction previous) (second : IsFraction ratio) :
    IsShare (DockLayout.greater 0 (ratio - previous)) := by
  rw [DockLayout.greater]
  split
  · rename_i positive
    obtain ⟨number, same⟩ := sub second.finite first.finite
    have above := (lt_iff (isNumber_of_isFinite isFinite_zero) number).mp positive
    have below : value (ratio - previous) ≤ value (1 : K) := by
      rw [same, value_one, ← round_one K]
      apply round_mono
      linarith [first.nonneg, second.le_one]
    exact ⟨.of_between number isFraction_zero isFraction_one above.le below, .inr positive⟩
  · exact zero

end IsShare

/-! ## Parts of the zero rectangle -/

namespace Rect

theorem slab_zero (absorbs : ZeroAbsorbs K) (direction : Direction) {start span : K}
    (first : IsShare start) (second : IsShare span) :
    (zero : Rect K).slab direction start span = zero := by
  cases direction <;>
    simp only [slab, zero, first.zero_mul absorbs, second.zero_mul absorbs, absorbs.add_zero]

theorem cutFrom_zero (absorbs : ZeroAbsorbs K) (direction : Direction) {previous : K}
    (share : IsShare previous) {ratios : List K}
    (harmless : ∀ ratio ∈ ratios, IsFraction ratio ∨ IsIdle ratio) :
    ∀ part ∈ (zero : Rect K).cutFrom direction previous ratios, part = zero := by
  induction ratios generalizing previous with
  | nil => exact fun part listed => nomatch listed
  | cons ratio rest ih =>
    obtain ⟨here, others⟩ := List.forall_mem_cons.mp harmless
    rw [cutFrom, List.forall_mem_cons]
    rcases here with fraction | idle
    · have part := slab_zero absorbs direction share (.span share.fraction fraction)
      exact ⟨part, ih (share.greater fraction) others⟩
    · obtain ⟨still, empty⟩ := idle previous
      rw [greater, if_neg empty, greater, if_neg still]
      exact ⟨slab_zero absorbs direction share .zero, ih share others⟩

end Rect

namespace Area

omit [Rounding K] in
theorem Assembled.resize_zero {area : Area K} (assembled : area.Assembled) :
    area.resize .zero = area := by
  cases assembled with
  | container shown => rw [resize]
  | @split children ratios direction handle split made each =>
    obtain ⟨-, -, rfl⟩ := Split.make_eq_ok made
    have again := resize_resize
      (.split ⟨handle, direction, Split.boundedRatios ratios, .zero⟩ children) .zero .zero
    exact again

end Area

theorem Split.relayout_zero (absorbs : ZeroAbsorbs K) {children : List (Area K)}
    {ratios : List K} (direction : Direction) (handle : SplitHandle)
    (count : children.length = ratios.length)
    (assembled : ∀ child ∈ children, child.Assembled)
    (harmless : ∀ ratio ∈ ratios, IsFraction ratio ∨ IsIdle ratio) :
    Split.relayout ⟨⟨handle, direction, ratios, .zero⟩, children⟩ =
      ⟨⟨handle, direction, ratios, .zero⟩, children⟩ := by
  have parts : (Rect.zero : Rect K).cut direction ratios = children.map Area.rect := by
    rw [Rect.cut, List.eq_replicate_of_mem (Rect.cutFrom_zero absorbs direction .zero harmless),
      List.map_congr_left fun child listed => (assembled child listed).rect, List.map_const',
      Rect.length_cutFrom, count]
  rw [relayout, parts, Area.resizeEach_still]
  intro child listed
  rw [(assembled child listed).rect, (assembled child listed).resize_zero]

/-! ## On doubles -/

namespace Binary64

open Float.Model Float.Model.UnpackedFloat

theorem zeroAbsorbs : ZeroAbsorbs Float where
  add_zero := rfl
  mul_zero := rfl
  mul_of_pos := by
    intro x finite positive
    have none : (0 : Float).toModel.unpack = .zero .positive := rfl
    change (decide ((((0 : Float).toModel.unpack.compare x.toModel.unpack) == some .lt) =
      true)) = true at positive
    change x.toModel.unpack.isFinite = true at finite
    change Float.ofModel (.pack (UnpackedFloat.mul Format.binary64 (0 : Float).toModel.unpack
      x.toModel.unpack)) = 0
    rw [none] at positive ⊢
    generalize x.toModel.unpack = u at positive finite
    cases u with
    | infinity s => cases finite
    | notANumber => cases finite
    | zero s => cases positive
    | finite s m e some =>
      cases s with
      | negative => cases positive
      | positive => rfl

end Binary64

/-- Bringing a ratio within bounds leaves a fraction, unless the ratio is no number. -/
theorem Split.harmless_bounded (ratio : Float) :
    IsFraction (bounded ratio) ∨ IsIdle (bounded ratio) := by
  cases lost : ratio.isNaN with
  | false =>
    have number : IsNumber ratio := lost
    exact .inl (Ordered.isFraction_bounded number)
  | true =>
    have same : (bounded ratio).isNaN = true := (isNaN_bounded ratio).trans lost
    refine .inr fun previous => ⟨Binary64.not_lt_right previous same, ?_⟩
    exact Binary64.not_lt_right 0 (Binary64.isNaN_sub_left same previous)

theorem Split.eq_of_made {children : List (Area Float)} {ratios : List Float}
    {direction : Direction} {handle : SplitHandle} {split : Split Float}
    (made : Split.make children (boundedRatios ratios) direction handle .zero = .ok split)
    (assembled : ∀ child ∈ children, child.Assembled) :
    split = ⟨⟨handle, direction, boundedRatios ratios, .zero⟩, children⟩ := by
  obtain ⟨-, last, present, one⟩ := make_checked made
  obtain ⟨-, count, rfl⟩ := make_eq_ok made
  refine relayout_zero Binary64.zeroAbsorbs direction handle count assembled ?_
  obtain rfl | ⟨first, final, rfl⟩ := List.eq_nil_or_concat ratios
  · exact List.forall_mem_nil _
  · rw [List.concat_eq_append, boundedRatios_append] at present ⊢
    obtain rfl : final = last := by simpa using present
    rw [Binary64.eq_one_of_beq one, List.forall_mem_append, List.forall_mem_map,
      List.forall_mem_singleton]
    exact ⟨fun ratio _ => harmless_bounded ratio, .inl isFraction_one⟩

/-- Nothing of an area that was read has been placed. -/
theorem Area.Assembled.rect_zero {area : Area Float} (assembled : area.Assembled) :
    ∀ inner ∈ area.preorder, inner.rect = .zero := by
  induction assembled with
  | container shown =>
    intro inner listed
    rw [List.mem_singleton.mp listed]
    rfl
  | @split children ratios direction handle split made each ih =>
    rw [Split.eq_of_made made each, Split.toArea, preorder, preorderEach_eq, List.forall_mem_cons]
    refine ⟨rfl, fun inner listed => ?_⟩
    obtain ⟨child, present, below⟩ := List.mem_flatMap.mp listed
    exact ih child present inner below

end DockLayout
