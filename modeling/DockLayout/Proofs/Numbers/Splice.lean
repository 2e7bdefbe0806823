import DockLayout.Proofs.Numbers.OrderedEdits

/-!
# Splicing ordered ratios

When areas take the place of a child, each ends where its share of the total
weight puts it, and rounding may not carry it out of the place or past the next
one. The weights are the extents of parts of a modest rectangle, which add up to
a finite positive sum, or equal weights.
-/

set_option autoImplicit false

namespace DockLayout

open Rounding

variable {K : Type} [Scalar K] [Rounding K]

/-! ## Places -/

def Split.place (start finish whole reached : K) : K :=
  lesser (start + reached / whole * (finish - start)) finish

/-- Sums from the left that are finite, do not decrease, and can be divided by
the whole. -/
def Accumulates (whole : K) : K → List K → Prop
  | _, [] => True
  | reached, weight :: rest =>
      IsFinite (reached + weight) ∧ value reached ≤ value (reached + weight) ∧
        IsFinite ((reached + weight) / whole) ∧ Accumulates whole (reached + weight) rest

section Places

variable {start finish whole : K}

theorem place_monotone (low : IsFraction start) (high : IsFraction finish)
    (order : value start ≤ value finish) (number : IsNumber whole) (positive : 0 < value whole) :
    ∃ position : ℚ → ℚ, Monotone position ∧ ∀ reached : K, IsFinite reached →
      0 ≤ value reached → IsFinite (reached / whole) →
      IsFraction (Split.place start finish whole reached) ∧
        value start ≤ value (Split.place start finish whole reached) ∧
        value (Split.place start finish whole reached) ≤ value finish ∧
        value (Split.place start finish whole reached) = position (value reached) := by
  obtain ⟨factor, factorNonneg, -, quotient⟩ := div number positive
  obtain ⟨span, -, -⟩ := span_fraction low high order
  refine ⟨fun weight => min (round K (value start +
    round K (round K (weight * factor) * value (finish - start)))) (value finish), ?_, ?_⟩
  · intro first second less
    refine min_le_min_right _ (round_mono (add_le_add_right (round_mono ?_) _))
    exact mul_le_mul_of_nonneg_right
      (round_mono (mul_le_mul_of_nonneg_right less factorNonneg)) span.nonneg
  · intro reached finite nonneg divided
    have quotientValue := (quotient reached finite).2
    have quotientNonneg : 0 ≤ value (reached / whole) := by
      rw [quotientValue]
      exact round_nonneg K (mul_nonneg nonneg factorNonneg)
    obtain ⟨partFinite, partValue, -⟩ := mul_fraction divided span
    have partNonneg : 0 ≤ value (reached / whole * (finish - start)) := by
      rw [partValue]
      exact round_nonneg K (mul_nonneg quotientNonneg span.nonneg)
    obtain ⟨sumNumber, sumValue⟩ := add low.finite partFinite
    obtain ⟨placeNumber, placeValue⟩ := lesser_number sumNumber (isNumber_of_isFinite high.finite)
    have above : value start ≤ value (Split.place start finish whole reached) := by
      rw [Split.place, placeValue, sumValue]
      refine le_min ((round_value low.finite).ge.trans (round_mono ?_)) order
      linarith
    have below : value (Split.place start finish whole reached) ≤ value finish := by
      rw [Split.place, placeValue]
      exact min_le_right _ _
    refine ⟨.of_between placeNumber low high above below, above, below, ?_⟩
    rw [Split.place, placeValue, sumValue, partValue, quotientValue]

structure Rises (start finish : K) (ratios : List K) : Prop where
  within : ∀ ratio ∈ ratios,
    IsFraction ratio ∧ value start ≤ value ratio ∧ value ratio ≤ value finish
  ascending : ratios.Pairwise fun first second => value first ≤ value second

theorem Rises.nil (start finish : K) : Rises start finish [] where
  within := fun _ listed => absurd listed List.not_mem_nil
  ascending := .nil

theorem Rises.concat {ratios : List K} (rises : Rises start finish ratios)
    (high : IsFraction finish) (order : value start ≤ value finish) :
    Rises start finish (ratios ++ [finish]) where
  within := by
    rw [List.forall_mem_append, List.forall_mem_singleton]
    exact ⟨rises.within, high, order, le_refl _⟩
  ascending := by
    refine List.pairwise_append.mpr ⟨rises.ascending, List.pairwise_singleton _ _, ?_⟩
    intro first listed second single
    rw [List.mem_singleton.mp single]
    exact (rises.within first listed).2.2

theorem shareOut_ordered (low : IsFraction start) (high : IsFraction finish)
    (order : value start ≤ value finish) (number : IsNumber whole) (positive : 0 < value whole)
    {reached : K} (nonneg : 0 ≤ value reached) {weights : List K}
    (grows : Accumulates whole reached weights) :
    Rises start finish (Split.shareOut start (finish - start) finish whole reached weights) := by
  obtain ⟨position, monotone, placed⟩ := place_monotone low high order number positive
  have main : ∀ (weights : List K) (reached : K), 0 ≤ value reached →
      Accumulates whole reached weights →
      (∀ ratio ∈ Split.shareOut start (finish - start) finish whole reached weights,
        (IsFraction ratio ∧ value start ≤ value ratio ∧ value ratio ≤ value finish) ∧
          position (value reached) ≤ value ratio) ∧
      (Split.shareOut start (finish - start) finish whole reached weights).Pairwise
        fun first second => value first ≤ value second := by
    intro weights
    induction weights with
    | nil =>
      intro reached _ _
      exact ⟨(fun ratio listed => nomatch listed), List.Pairwise.nil⟩
    | cons weight rest ih =>
      rintro reached nonneg ⟨finite, grew, divided, grows⟩
      have later := nonneg.trans grew
      obtain ⟨fraction, above, below, same⟩ := placed (reached + weight) finite later divided
      obtain ⟨others, ascending⟩ := ih (reached + weight) later grows
      unfold Split.shareOut
      constructor
      · intro ratio listed
        rcases List.mem_cons.mp listed with rfl | other
        · exact ⟨⟨fraction, above, below⟩, (monotone grew).trans same.ge⟩
        · obtain ⟨facts, beyond⟩ := others ratio other
          exact ⟨facts, (monotone grew).trans beyond⟩
      · refine List.pairwise_cons.mpr ⟨?_, ascending⟩
        intro ratio listed
        exact same.le.trans (others ratio listed).2
  obtain ⟨facts, ascending⟩ := main weights reached nonneg grows
  exact ⟨fun ratio listed => (facts ratio listed).1, ascending⟩

end Places

/-! ## Equal weights -/

omit [Rounding K] in
theorem total_ones_succ (count : Nat) :
    total (List.replicate (count + 1) (1 : K)) = total (List.replicate count (1 : K)) + 1 := by
  rw [List.replicate_succ', total, total, List.foldl_append]
  rfl

theorem total_ones_grows (count : Nat) :
    0 ≤ value (total (List.replicate count (1 : K))) ∧
      value (total (List.replicate count (1 : K))) ≤
        value (total (List.replicate count (1 : K)) + 1) := by
  have grows : ∀ count : Nat, value (total (List.replicate count (1 : K))) ≤
      value (total (List.replicate count (1 : K)) + 1) := by
    intro count
    have finite := isFinite_ones (K := K) count
    rw [(add finite isFinite_one).2, value_one]
    refine (round_value finite).ge.trans (round_mono ?_)
    linarith
  refine ⟨?_, grows count⟩
  induction count with
  | zero => exact value_zero.ge
  | succ count ih =>
    rw [total_ones_succ]
    exact ih.trans (grows count)

theorem isFinite_div {whole reached limit : K} (number : IsNumber whole)
    (positive : 0 < value whole) (finite : IsFinite reached) (nonneg : 0 ≤ value reached)
    (limited : IsFinite limit) (limitNonneg : 0 ≤ value limit)
    (within : value reached ≤ value limit * value whole) : IsFinite (reached / whole) := by
  obtain ⟨factor, factorNonneg, inverse, quotient⟩ := div number positive
  obtain ⟨divided, same⟩ := quotient reached finite
  have scaled : value reached * factor ≤ value limit := by
    calc value reached * factor ≤ value limit * value whole * factor :=
          mul_le_mul_of_nonneg_right within factorNonneg
      _ = value limit * (factor * value whole) := by ring
      _ ≤ value limit := mul_le_of_le_one_right limitNonneg inverse
  apply isFinite_of_le divided limited
  rw [same, abs_of_nonneg (round_nonneg K (mul_nonneg nonneg factorNonneg)),
    abs_of_nonneg limitNonneg]
  exact (round_mono scaled).trans (round_value limited).le

theorem accumulates_ones {whole : K} (number : IsNumber whole) (large : 1 ≤ value whole)
    (done left : Nat) :
    Accumulates whole (total (List.replicate done (1 : K))) (List.replicate left 1) := by
  induction left generalizing done with
  | zero => exact trivial
  | succ left ih =>
    obtain ⟨nonneg, grew⟩ := total_ones_grows (K := K) done
    have finite : IsFinite (total (List.replicate done (1 : K)) + 1) := by
      rw [← total_ones_succ]
      exact isFinite_ones (done + 1)
    have later := nonneg.trans grew
    have divided := isFinite_div number (zero_lt_one.trans_le large) finite later finite later
      (le_mul_of_one_le_right later large)
    refine ⟨finite, grew, divided, ?_⟩
    rw [← total_ones_succ]
    exact ih (done + 1)

/-! ## Extents as weights -/

section Extents

variable {extent : K}

theorem add_part (modest : IsModest extent) {span reached : K} (part : IsFraction span)
    (finite : IsFinite reached) {rest : ℚ} (restNonneg : 0 ≤ rest)
    (bound : |value reached| + 4 * |value extent| * (value span + rest) ≤ 8 * |value extent|) :
    IsFinite (reached + extent * span) ∧
      value (reached + extent * span) = round K (value reached + value (extent * span)) ∧
      |value (reached + extent * span)| + 4 * |value extent| * rest ≤ 8 * |value extent| := by
  obtain ⟨partFinite, partValue, -⟩ := mul_fraction (isFinite_of_isModest modest) part
  obtain ⟨number, same⟩ := add finite partFinite
  have partBound : |value (extent * span)| ≤ 2 * |value extent| * value span := by
    have doubled := abs_round_le K (value extent * value span)
    rw [← partValue, abs_mul, abs_of_nonneg part.nonneg] at doubled
    linarith
  have sumBound : |value (reached + extent * span)| ≤
      |value reached| + 4 * |value extent| * value span := by
    have added := abs_round_add_le finite (value (extent * span))
    rw [← same] at added
    linarith
  have remaining : |value (reached + extent * span)| + 4 * |value extent| * rest ≤
      8 * |value extent| := by linarith
  have restBound : 0 ≤ 4 * |value extent| * rest := by positivity
  refine ⟨isFinite_of_le_modest number modest ?_, same, remaining⟩
  linarith

theorem valueSum_nonneg {spans : List K} (parts : ∀ span ∈ spans, IsFraction span) :
    0 ≤ valueSum spans := by
  apply List.sum_nonneg
  intro part listed
  obtain ⟨span, inside, rfl⟩ := List.mem_map.mp listed
  exact (parts span inside).nonneg

def FiniteSums : K → List K → Prop
  | _, [] => True
  | reached, weight :: rest => IsFinite (reached + weight) ∧ FiniteSums (reached + weight) rest

theorem FiniteSums.dropLast {reached : K} {weights : List K}
    (sums : FiniteSums reached weights) : FiniteSums reached weights.dropLast := by
  induction weights generalizing reached with
  | nil => exact trivial
  | cons weight rest ih =>
    cases rest with
    | nil => exact trivial
    | cons next others => exact ⟨sums.1, ih sums.2⟩

theorem finiteSums_of_modest (modest : IsModest extent) {spans : List K}
    (parts : ∀ span ∈ spans, IsFraction span) {reached : K} (finite : IsFinite reached)
    (bound : |value reached| + 4 * |value extent| * valueSum spans ≤ 8 * |value extent|) :
    FiniteSums reached (spans.map (extent * ·)) := by
  induction spans generalizing reached with
  | nil => exact trivial
  | cons span rest ih =>
    have part := parts span List.mem_cons_self
    have others : ∀ other ∈ rest, IsFraction other :=
      fun other listed => parts other (List.mem_cons_of_mem span listed)
    rw [valueSum, List.map_cons, List.sum_cons] at bound
    obtain ⟨sumFinite, -, remaining⟩ :=
      add_part modest part finite (valueSum_nonneg others) bound
    exact ⟨sumFinite, ih others sumFinite remaining⟩

theorem part_nonpos (whole : IsFinite extent) {span : K} (part : IsFraction span)
    (nonpos : value extent ≤ 0) : value (extent * span) ≤ 0 := by
  rw [(mul_fraction whole part).2.1]
  exact round_nonpos K (mul_nonpos_of_nonpos_of_nonneg nonpos part.nonneg)

theorem part_nonneg (whole : IsFinite extent) {span : K} (part : IsFraction span)
    (nonneg : 0 ≤ value extent) : 0 ≤ value (extent * span) := by
  rw [(mul_fraction whole part).2.1]
  exact round_nonneg K (mul_nonneg nonneg part.nonneg)

/-- A sum of parts of an extent has the extent's sign, and on the way to it the sums
accumulate if the extent is not negative. -/
theorem sum_parts (whole : IsFinite extent) {spans : List K}
    (parts : ∀ span ∈ spans, IsFraction span) {reached : K} (finite : IsFinite reached)
    (sums : FiniteSums reached (spans.map (extent * ·))) :
    IsFinite ((spans.map (extent * ·)).foldl (· + ·) reached) ∧
      (value extent ≤ 0 →
        value ((spans.map (extent * ·)).foldl (· + ·) reached) ≤ value reached) ∧
      (0 ≤ value extent → 0 ≤ value reached →
        value reached ≤ value ((spans.map (extent * ·)).foldl (· + ·) reached) ∧
        ∀ whole : K, IsNumber whole → 0 < value whole →
          value ((spans.map (extent * ·)).foldl (· + ·) reached) ≤ value whole →
          Accumulates whole reached (spans.map (extent * ·))) := by
  induction spans generalizing reached with
  | nil => exact ⟨finite, fun _ => le_refl _, fun _ _ => ⟨le_refl _, fun _ _ _ _ => trivial⟩⟩
  | cons span rest ih =>
    have part := parts span List.mem_cons_self
    have others : ∀ other ∈ rest, IsFraction other :=
      fun other listed => parts other (List.mem_cons_of_mem span listed)
    obtain ⟨sumFinite, later⟩ := sums
    obtain ⟨finalFinite, shrinks, grows⟩ := ih others sumFinite later
    have sumValue := (add finite (mul_fraction whole part).1).2
    rw [List.map_cons, List.foldl_cons]
    refine ⟨finalFinite, ?_, ?_⟩
    · intro negative
      apply (shrinks negative).trans
      rw [sumValue]
      refine (round_mono ?_).trans (round_value finite).le
      have partNonpos := part_nonpos whole part negative
      linarith
    · intro positive nonneg
      have grew : value reached ≤ value (reached + extent * span) := by
        rw [sumValue]
        refine (round_value finite).ge.trans (round_mono ?_)
        have partNonneg := part_nonneg whole part positive
        linarith
      have later := nonneg.trans grew
      obtain ⟨reaches, accumulates⟩ := grows positive later
      refine ⟨grew.trans reaches, ?_⟩
      intro whole number wholePositive within
      have shares : value (reached + extent * span) ≤ value (1 : K) * value whole := by
        rw [value_one, one_mul]
        exact reaches.trans within
      have one : 0 ≤ value (1 : K) := value_one.ge.trans' zero_le_one
      exact ⟨sumFinite, grew,
        isFinite_div number wholePositive sumFinite later isFinite_one one shares,
        accumulates whole number wholePositive within⟩

end Extents

/-! ## Splicing -/

section Splicing

omit [Rounding K]

def Split.extents (s : Split K) : List K :=
  s.children.map fun area => area.rect.extent s.direction

theorem Split.extents_of_placed {s : Split K}
    (placed : s.children.map Area.rect = s.rect.cut s.direction s.ratios) :
    s.extents = (Rect.spans 0 s.ratios).map (s.rect.extent s.direction * ·) := by
  rw [← Rect.extent_cutFrom, ← Rect.cut, ← placed, List.map_map]
  rfl

theorem total_concat (values : List K) (last : K) :
    total (values ++ [last]) = total values + last := by
  rw [total, total, List.foldl_append]
  rfl

theorem Split.shareOut_dropLast (start span finish whole reached : K) (weights : List K) :
    (shareOut start span finish whole reached weights).dropLast =
      shareOut start span finish whole reached weights.dropLast := by
  induction weights generalizing reached with
  | nil => rfl
  | cons weight rest ih =>
    cases rest with
    | nil => rfl
    | cons next others =>
      rw [shareOut, shareOut, List.dropLast_cons_cons, List.dropLast_cons_cons, shareOut, ← ih,
        shareOut]

theorem Split.ends_eq (s : Split K) (index : Nat) (areas : List (Area K)) :
    s.ends index areas =
      shareOut (previousRatio s.ratios index)
        (s.ratios.getD index 0 - previousRatio s.ratios index) (s.ratios.getD index 0)
        (weights s.direction areas).2 0 (weights s.direction areas).1.dropLast ++
          [s.ratios.getD index 0] := by
  rw [← shareOut_dropLast]
  rfl

end Splicing

/-- The children can share a place: their extents do not add up to anything positive,
or those before the last one have finite sums. -/
def Split.Summable (inner : Split K) : Prop :=
  total inner.extents ≤ 0 ∨
    IsFinite (inner.rect.extent inner.direction) ∧ FiniteSums 0 inner.extents.dropLast

theorem Split.Summable.of_modest {inner : Split K} (ordered : Ordered inner.ratios)
    (modest : inner.rect.IsModest)
    (placed : inner.children.map Area.rect = inner.rect.cut inner.direction inner.ratios) :
    inner.Summable := by
  obtain ⟨parts, sum⟩ := ordered.spans
  have bound : |value (0 : K)| + 4 * |value (inner.rect.extent inner.direction)| *
      valueSum (Rect.spans 0 inner.ratios) ≤ 8 * |value (inner.rect.extent inner.direction)| := by
    rw [value_zero, abs_zero]
    nlinarith [abs_nonneg (value (inner.rect.extent inner.direction))]
  have sums := finiteSums_of_modest (modest inner.direction) parts isFinite_zero bound
  rw [← extents_of_placed placed] at sums
  exact .inr ⟨isFinite_of_isModest (modest inner.direction), sums.dropLast⟩

/-- If parts of an extent add up to something positive, then they accumulate to it. -/
theorem accumulates_parts {extent : K} (whole : IsFinite extent) {front : List K} {final : K}
    (parts : ∀ span ∈ front, IsFraction span) (last : IsFraction final)
    (sums : FiniteSums 0 (front.map (extent * ·)))
    (some : ¬ total (front.map (extent * ·)) + extent * final ≤ 0) :
    IsNumber (total (front.map (extent * ·)) + extent * final) ∧
      0 < value (total (front.map (extent * ·)) + extent * final) ∧
      Accumulates (total (front.map (extent * ·)) + extent * final) 0
        (front.map (extent * ·)) := by
  obtain ⟨sumFinite, shrinks, grows⟩ := sum_parts whole parts isFinite_zero sums
  change IsFinite (total _) at sumFinite
  change _ → value (total _) ≤ _ at shrinks
  obtain ⟨number, sumValue⟩ := add sumFinite (mul_fraction whole last).1
  rw [le_iff number (isNumber_of_isFinite isFinite_zero), value_zero, not_le] at some
  rw [value_zero] at shrinks
  have nonneg : 0 ≤ value extent := by
    by_contra negative
    have nonpos := (not_le.mp negative).le
    rw [sumValue] at some
    exact absurd some (not_lt.mpr
      (round_nonpos K (add_nonpos (shrinks nonpos) (part_nonpos whole last nonpos))))
  refine ⟨number, some, (grows nonneg value_zero.ge).2 _ number some ?_⟩
  change value (total _) ≤ _
  rw [sumValue]
  exact (round_value sumFinite).ge.trans
    (round_mono (le_add_of_nonneg_right (part_nonneg whole last nonneg)))

/-- The weights with which the children of a split share out a place. The last one
is not needed, since the last child ends where the place ends. -/
theorem weights_accumulate {inner : Split K} (ordered : Ordered inner.ratios)
    (summable : inner.Summable)
    (placed : inner.children.map Area.rect = inner.rect.cut inner.direction inner.ratios) :
    IsNumber (Split.weights inner.direction inner.children).2 ∧
      0 < value (Split.weights inner.direction inner.children).2 ∧
      Accumulates (Split.weights inner.direction inner.children).2 0
        (Split.weights inner.direction inner.children).1.dropLast := by
  change IsNumber (if total inner.extents ≤ 0 then _ else _ : List K × K).2 ∧
    0 < value (if total inner.extents ≤ 0 then _ else _ : List K × K).2 ∧
    Accumulates (if total inner.extents ≤ 0 then _ else _ : List K × K).2 0
      (if total inner.extents ≤ 0 then _ else _ : List K × K).1.dropLast
  by_cases nothing : total inner.extents ≤ 0
  · rw [if_pos nothing]
    have some : 1 ≤ inner.children.length := by
      have count := congrArg List.length placed
      rw [List.length_map, Rect.length_cut] at count
      rw [count]
      exact List.length_pos_of_ne_nil ordered.ne_nil
    have large : 1 ≤ value (inner.children.length : K) := one_le_natCast some
    rw [List.dropLast_replicate]
    exact ⟨isNumber_natCast _, zero_lt_one.trans_le large,
      accumulates_ones (isNumber_natCast _) large 0 (inner.children.length - 1)⟩
  · rw [if_neg nothing]
    obtain ⟨finite, sums⟩ := summable.resolve_left nothing
    have zero : IsNumber (0 : K) := isNumber_of_isFinite isFinite_zero
    have extents := Split.extents_of_placed placed
    have parts := ordered.spans.1
    obtain none | ⟨front, final, same⟩ := List.eq_nil_or_concat (Rect.spans 0 inner.ratios)
    · rw [none, List.map_nil] at extents
      refine absurd ?_ nothing
      rw [extents]
      exact (le_iff zero zero).mpr (le_refl _)
    · rw [same, List.concat_eq_append] at parts extents
      rw [List.map_append] at extents
      change IsNumber (total inner.extents) ∧ 0 < value (total inner.extents) ∧
        Accumulates (total inner.extents) 0 inner.extents.dropLast
      rw [extents, List.map_singleton, List.dropLast_concat] at sums ⊢
      rw [extents, List.map_singleton, total_concat] at nothing
      rw [total_concat]
      exact accumulates_parts finite
        (fun span listed => parts span (List.mem_append_left [final] listed))
        (parts final (by simp)) sums nothing

theorem Ordered.ends {s inner : Split K} {index : Nat} (ordered : Ordered s.ratios)
    (inside : index < s.ratios.length) (innerOrdered : Ordered inner.ratios)
    (summable : 1 < inner.children.length → inner.Summable)
    (aligned : inner.direction = s.direction)
    (placed : inner.children.map Area.rect = inner.rect.cut inner.direction inner.ratios) :
    Rises (Split.previousRatio s.ratios index) s.ratios[index] (s.ends index inner.children) := by
  obtain ⟨low, -, order⟩ := ordered.previous inside
  have high := ordered.fraction _ (List.getElem_mem inside)
  rw [Split.ends_eq, List.getD_eq_getElem s.ratios 0 inside, ← aligned]
  refine Rises.concat ?_ high order
  by_cases several : 1 < inner.children.length
  · obtain ⟨number, positive, accumulates⟩ :=
      weights_accumulate innerOrdered (summable several) placed
    exact shareOut_ordered low high order number positive value_zero.ge accumulates
  · have none : (Split.weights inner.direction inner.children).1.dropLast = [] := by
      apply List.eq_nil_of_length_eq_zero
      rw [List.length_dropLast, Split.length_weights]
      omega
    rw [none]
    exact .nil _ _

/-- Areas that end in order within the place of a child leave the ratios ordered. -/
theorem Ordered.splice {s : Split K} {index : Nat} {areas : List (Area K)}
    (ordered : Ordered s.ratios) (inside : index < s.ratios.length)
    (within : ∀ ratio ∈ s.ends index areas, IsFraction ratio ∧
      value (Split.previousRatio s.ratios index) ≤ value ratio ∧
      value ratio ≤ value s.ratios[index])
    (ascending : (s.ends index areas).Pairwise fun first second => value first ≤ value second) :
    Ordered (s.splicedRatios index areas) := by
  rw [Split.splicedRatios]
  refine ordered.replace inside ascending ?_ ?_ ?_ ?_
  · intro ratio listed
    exact (within ratio listed).1
  · intro ratio listed
    exact (within ratio listed).2.1
  · intro ratio listed later member
    exact (within ratio listed).2.2.trans (ordered.following inside later member)
  · intro final
    rw [Split.ends, List.getLast?_concat, List.getD_eq_getElem s.ratios 0 inside,
      ordered.getElem_of_last inside final]

theorem Ordered.spliced {s inner : Split K} {index : Nat} (ordered : Ordered s.ratios)
    (inside : index < s.ratios.length) (innerOrdered : Ordered inner.ratios)
    (summable : 1 < inner.children.length → inner.Summable)
    (aligned : inner.direction = s.direction)
    (placed : inner.children.map Area.rect = inner.rect.cut inner.direction inner.ratios) :
    Ordered (s.splicedRatios index inner.children) := by
  obtain ⟨facts, ascending⟩ := ordered.ends inside innerOrdered summable aligned placed
  exact ordered.splice inside facts ascending

/-! ## The regime -/

/-- Ordered ratios in modest rectangles. Shares and displacements may be any
numbers, and the pointer is anywhere finite. -/
def Regime.ordered : Regime K where
  Ratios := Ordered
  Room := Rect.IsModest
  Share := IsNumber
  Shift := Point.IsNumeric
  Pointer := Point.IsFinite
  ratios_ne_nil := Ordered.ne_nil
  room_zero := fun direction => by cases direction <;> exact isModest_zero
  room_of_cut := fun modest ordered listed => modest.of_cut ordered listed
  ratios_pair := Ordered.pair
  share_complement := fun number => isNumber_sub isFinite_one number
  ratios_moved := fun ordered modest numeric inside =>
    ordered.moved (Ordered.isNumber_ratioDelta modest numeric) inside
  ratios_without := fun ordered inside _ => ordered.without inside
  ratios_spliced := fun ordered inside innerOrdered modest aligned placed =>
    ordered.spliced inside innerOrdered (fun _ => .of_modest innerOrdered modest placed) aligned
      placed
  shift_of_pointers := fun last p => ⟨(sub last.1 p.1).1, (sub last.2 p.2).1⟩

end DockLayout
