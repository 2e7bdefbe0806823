import DockLayout.Proofs.Binary64.NotANumber
import DockLayout.Proofs.Numbers.Bounded
import DockLayout.Proofs.Numbers.Splice
import DockLayout.Proofs.Tree.Loaded

/-!
# Ratios that are no numbers

On doubles the ratios of a split stay ordered as long as they are numbers. There
are four ways in for one that is not: the share of a new split, a displacement
that has no quotient with the extent, extents that add up to more than the
doubles hold when children are spliced in, and a layout file. Nothing that
follows such a computation catches it.
-/

set_option autoImplicit false

namespace DockLayout

open Rounding Binary64

def Numeric (ratios : List Float) : Prop := ∀ ratio ∈ ratios, ratio.isNaN = false

theorem not_numeric_of_mem {ratios : List Float} {ratio : Float} (listed : ratio ∈ ratios)
    (lost : ratio.isNaN = true) : ¬ Numeric ratios := by
  intro numeric
  rw [numeric ratio listed] at lost
  cases lost

namespace Ordered

variable {ratios : List Float}

theorem numeric (ordered : Ordered ratios) : Numeric ratios :=
  fun ratio listed => isNumber_of_isFinite (ordered.fraction ratio listed).finite

theorem sorted (ordered : Ordered ratios) : ratios.Pairwise (· ≤ ·) := by
  refine ordered.ascending.imp_of_mem ?_
  intro first second left right order
  exact (Binary64.le_iff (ordered.numeric first left) (ordered.numeric second right)).mpr order

end Ordered

namespace Split

/-! ## Shares -/

theorem isNaN_bounded (ratio : Float) : (bounded ratio).isNaN = ratio.isNaN := by
  cases lost : ratio.isNaN with
  | true => exact isNaN_clamp lost (minRatio Float) (maxRatio Float)
  | false =>
    have number : IsNumber ratio := lost
    exact isNumber_of_isFinite (Ordered.isFraction_bounded number).finite

theorem not_numeric_pair {share : Float} (lost : share.isNaN = true) :
    ¬ Numeric [bounded share, 1] :=
  not_numeric_of_mem List.mem_cons_self ((isNaN_bounded share).trans lost)

theorem isNaN_complement (share : Float) : (1 - share).isNaN = share.isNaN := by
  cases lost : share.isNaN with
  | true => exact isNaN_sub_right 1 lost
  | false =>
    have number : IsNumber share := lost
    exact isNumber_sub isFinite_one number

/-! ## Displacements -/

/-- The split has an extent with which the displacement has no quotient: one of
the two is no number, or neither is finite. -/
def Blurs (s : Split Float) (delta : Point Float) : Prop :=
  (s.rect.extent s.direction == 0) = false ∧
    ((delta.along s.direction).isNaN = true ∨ (s.rect.extent s.direction).isNaN = true ∨
      (delta.along s.direction).isFinite = false ∧
        (s.rect.extent s.direction).isFinite = false)

theorem isNaN_ratioDelta_iff (s : Split Float) (delta : Point Float) :
    (s.ratioDelta delta).isNaN = true ↔ s.Blurs delta := by
  rw [ratioDelta, Blurs]
  split
  · rename_i flat
    refine iff_of_false (by decide) ?_
    rintro ⟨some, -⟩
    exact Bool.eq_false_iff.mp some flat
  · rename_i some
    have nonzero := eq_false_of_ne_true some
    have quotient := isNaN_div_iff (x := -delta.along s.direction)
      (y := s.rect.extent s.direction) nonzero
    rw [isNaN_negated, isFinite_negated] at quotient
    exact quotient.trans (and_iff_right nonzero).symm

theorem not_numeric_moved {s : Split Float} {index : Nat} {delta : Point Float}
    (inside : index < s.ratios.length) (blurs : s.Blurs delta) :
    ¬ Numeric (s.ratios.set index (s.movedRatio index delta)) := by
  have lost := (s.isNaN_ratioDelta_iff delta).mpr blurs
  have asked : (bounded (s.ratios.getD index 0 + s.ratioDelta delta)).isNaN = true :=
    (isNaN_bounded _).trans (isNaN_add_right _ lost)
  exact not_numeric_of_mem (List.mem_set inside _) (isNaN_clamp asked _ _)

/-! ## Extents that are spliced in -/

/-- The extents of the children add up to something positive, if to a number at
all, but those before the last one to nothing finite. -/
def Overflows (inner : Split Float) : Prop :=
  ¬ total inner.extents ≤ 0 ∧ (total inner.extents.dropLast).isFinite = false

instance (inner : Split Float) : Decidable inner.Overflows :=
  inferInstanceAs (Decidable (¬ _ ∧ _))

theorem finiteSums_of_foldl {reached : Float} {parts : List Float}
    (finite : (parts.foldl (· + ·) reached).isFinite = true) :
    reached.isFinite = true ∧ FiniteSums reached parts := by
  induction parts generalizing reached with
  | nil => exact ⟨finite, trivial⟩
  | cons part rest ih =>
    obtain ⟨here, later⟩ := ih finite
    refine ⟨?_, here, later⟩
    by_contra endless
    rw [isFinite_add_left (eq_false_of_ne_true endless) part] at here
    cases here

theorem Summable.of_not_overflows {inner : Split Float} (several : 1 < inner.children.length)
    (placed : inner.children.map Area.rect = inner.rect.cut inner.direction inner.ratios)
    (fits : ¬ inner.Overflows) : inner.Summable := by
  by_cases nothing : total inner.extents ≤ 0
  · exact .inl nothing
  · right
    have finite : (total inner.extents.dropLast).isFinite = true := by
      by_contra endless
      exact fits ⟨nothing, eq_false_of_ne_true endless⟩
    obtain ⟨-, sums⟩ := finiteSums_of_foldl finite
    refine ⟨?_, sums⟩
    obtain ⟨spans, extents⟩ : ∃ spans : List Float,
        inner.extents = spans.map (inner.rect.extent inner.direction * ·) :=
      ⟨_, extents_of_placed placed⟩
    have count : inner.extents.length = inner.children.length := List.length_map _
    rw [extents] at sums count
    cases spans with
    | nil =>
      rw [List.map_nil, List.length_nil] at count
      omega
    | cons first rest =>
      cases rest with
      | nil =>
        rw [List.map_singleton, List.length_singleton] at count
        omega
      | cons second others =>
        -- An extent that is not finite is a factor of the first of the extents summed up.
        by_contra endless
        have product := isFinite_mul_left (eq_false_of_ne_true endless) first
        exact Bool.eq_false_iff.mp (isFinite_add_right 0 product) sums.1

theorem last_mem_shareOut (start span finish whole reached : Float) {weights : List Float}
    (some : weights ≠ []) :
    lesser (start + weights.foldl (· + ·) reached / whole * span) finish ∈
      shareOut start span finish whole reached weights := by
  induction weights generalizing reached with
  | nil => exact absurd rfl some
  | cons weight rest ih =>
    cases rest with
    | nil => exact List.mem_cons_self
    | cons next others => exact List.mem_cons_of_mem _ (ih _ (List.cons_ne_nil _ _))

theorem Overflows.several {inner : Split Float} (overflows : inner.Overflows) :
    inner.extents.dropLast ≠ [] := by
  intro none
  have endless := overflows.2
  rw [none] at endless
  cases endless

theorem Overflows.isNaN_share {inner : Split Float} (overflows : inner.Overflows) :
    (total inner.extents.dropLast / total inner.extents).isNaN = true := by
  have some : inner.extents ≠ [] := by
    intro none
    apply overflows.several
    rw [none, List.dropLast_nil]
  have whole : (total inner.extents).isFinite = false := by
    rw [← List.dropLast_concat_getLast some, total_concat]
    exact isFinite_add_left overflows.2 _
  exact (isNaN_div_iff (beq_zero_of_not_finite whole)).mpr (.inr (.inr ⟨overflows.2, whole⟩))

/-- The last boundary between the children that are spliced in is no number. -/
theorem not_numeric_spliced {s inner : Split Float} (index : Nat)
    (aligned : inner.direction = s.direction) (overflows : inner.Overflows) :
    ¬ Numeric (s.splicedRatios index inner.children) := by
  have weights : weights s.direction inner.children = (inner.extents, total inner.extents) := by
    rw [← aligned]
    exact if_neg overflows.1
  have reached := last_mem_shareOut (previousRatio s.ratios index)
    (s.ratios.getD index 0 - previousRatio s.ratios index) (s.ratios.getD index 0)
    (total inner.extents) 0 overflows.several
  have listed := List.mem_append_left [s.ratios.getD index 0] reached
  rw [splicedRatios, s.ends_eq, weights]
  -- None of the comparisons on the way from the quotient to the boundary catches it.
  refine not_numeric_of_mem (List.mem_append_left _ (List.mem_append_right _ listed)) ?_
  exact isNaN_lesser (isNaN_add_right _ (isNaN_mul_left overflows.isNaN_share _)) _

/-! ## Reading -/

theorem numeric_boundedRatios_iff {ratios : List Float} :
    Numeric (boundedRatios ratios) ↔ Numeric ratios := by
  obtain rfl | ⟨first, last, rfl⟩ := List.eq_nil_or_concat ratios
  · rfl
  · rw [List.concat_eq_append, boundedRatios_append]
    simp only [Numeric, List.forall_mem_append, List.forall_mem_map, isNaN_bounded]

theorem ordered_of_made {children : List (Area Float)} {ratios : List Float}
    {direction : Direction} {handle : SplitHandle} {rect : Rect Float} {split : Split Float}
    (made : Split.make children (boundedRatios ratios) direction handle rect = .ok split)
    (numeric : Numeric (boundedRatios ratios)) : Ordered (boundedRatios ratios) := by
  obtain ⟨ascending, last, present, one⟩ := make_checked made
  rw [eq_one_of_beq one] at present
  exact .of_checked (numeric_boundedRatios_iff.mp numeric) ascending present

theorem assemble_numeric_iff {head : SplitHandle × Direction × List Float}
    {children : List (Area Float)} {split : Split Float}
    (made : Split.assemble head children = .ok split) :
    Numeric split.ratios ↔ Numeric head.2.2 := by
  obtain ⟨-, -, rfl⟩ := make_eq_ok made
  exact numeric_boundedRatios_iff

end Split

end DockLayout
