import Mathlib.Algebra.BigOperators.Group.List.Basic
import DockLayout.Proofs.Numbers.Rounding
import DockLayout.Tree.Split

/-!
# Ordered ratios

The ratios of a split are fractions in order, the last of which is one. Here is
what follows for the parts of a rectangle: each is at most as large as the whole,
and their extents add up to a finite sum as long as the whole is modest.
-/

set_option autoImplicit false

namespace DockLayout

open Rounding

variable {K : Type}

section Spans

variable [Scalar K]

def Rect.spans (previous : K) : List K → List K
  | [] => []
  | ratio :: rest => greater 0 (ratio - previous) :: Rect.spans (greater previous ratio) rest

theorem Rect.extent_cutFrom (r : Rect K) (direction : Direction) (previous : K)
    (ratios : List K) :
    (r.cutFrom direction previous ratios).map (Rect.extent · direction) =
      (Rect.spans previous ratios).map (r.extent direction * ·) := by
  induction ratios generalizing previous with
  | nil => rfl
  | cons ratio rest ih =>
    rw [cutFrom, spans, List.map_cons, List.map_cons, ih]
    cases direction <;> rfl

theorem Rect.extent_flip_of_mem_cutFrom {r part : Rect K} {direction : Direction} {previous : K}
    {ratios : List K} (listed : part ∈ r.cutFrom direction previous ratios) :
    part.extent direction.flip = r.extent direction.flip := by
  induction ratios generalizing previous with
  | nil => cases listed
  | cons ratio rest ih =>
    rw [cutFrom] at listed
    rcases List.mem_cons.mp listed with rfl | later
    · cases direction <;> rfl
    · exact ih later

end Spans

variable [Scalar K] [Rounding K]

structure Ordered (ratios : List K) : Prop where
  ascending : ratios.Pairwise fun first second => value first ≤ value second
  fraction : ∀ ratio ∈ ratios, IsFraction ratio
  last : ratios.getLast? = some 1

def valueSum (values : List K) : ℚ := (values.map value).sum

/-- Parts between ordered ratios are fractions, and rounding at most doubles what
they take up together. -/
theorem spans_fractions {previous : K} {ratios : List K} (low : IsFraction previous)
    (ascending : ratios.Pairwise fun first second => value first ≤ value second)
    (fraction : ∀ ratio ∈ ratios, IsFraction ratio)
    (above : ∀ ratio ∈ ratios, value previous ≤ value ratio) :
    (∀ span ∈ Rect.spans previous ratios, IsFraction span) ∧
      valueSum (Rect.spans previous ratios) ≤ 2 * (1 - value previous) := by
  induction ratios generalizing previous with
  | nil =>
    refine ⟨(fun span listed => nomatch listed), ?_⟩
    have room := low.le_one
    simp only [Rect.spans, valueSum, List.map_nil, List.sum_nil]
    linarith
  | cons ratio rest ih =>
    have here := fraction ratio List.mem_cons_self
    have order := above ratio List.mem_cons_self
    obtain ⟨difference, -, doubled⟩ := span_fraction low here order
    obtain ⟨number, spanValue⟩ := greater_number
      (isNumber_of_isFinite (isFinite_zero (K := K))) (isNumber_of_isFinite difference.finite)
    rw [value_zero, max_eq_right difference.nonneg] at spanValue
    have span : IsFraction (greater 0 (ratio - previous)) := by
      apply IsFraction.of_between number isFraction_zero difference ?_ spanValue.le
      rw [value_zero, spanValue]
      exact difference.nonneg
    obtain ⟨reachedNumber, reachedValue⟩ := greater_number (isNumber_of_isFinite low.finite)
      (isNumber_of_isFinite here.finite)
    rw [max_eq_right order] at reachedValue
    have reached : IsFraction (greater previous ratio) :=
      .of_between reachedNumber here here reachedValue.ge reachedValue.le
    obtain ⟨later, sum⟩ := ih reached (List.pairwise_cons.mp ascending).2
      (fun other listed => fraction other (List.mem_cons_of_mem ratio listed))
      (fun other listed => reachedValue.trans_le ((List.pairwise_cons.mp ascending).1 other listed))
    refine ⟨?_, ?_⟩
    · intro part listed
      rw [Rect.spans] at listed
      rcases List.mem_cons.mp listed with rfl | other
      · exact span
      · exact later part other
    · rw [reachedValue] at sum
      simp only [Rect.spans, valueSum, List.map_cons, List.sum_cons, spanValue] at sum ⊢
      linarith

namespace Ordered

variable {ratios : List K}

theorem ne_nil (ordered : Ordered ratios) : ratios ≠ [] := by
  rintro rfl
  cases ordered.last

theorem spans (ordered : Ordered ratios) :
    (∀ span ∈ Rect.spans 0 ratios, IsFraction span) ∧ valueSum (Rect.spans 0 ratios) ≤ 2 := by
  have parts := spans_fractions isFraction_zero ordered.ascending ordered.fraction
    (fun ratio listed => value_zero.trans_le (ordered.fraction ratio listed).nonneg)
  rwa [value_zero, sub_zero, mul_one] at parts

end Ordered

def Point.IsNumeric (p : Point K) : Prop := IsNumber p.x ∧ IsNumber p.y

def Point.IsFinite (p : Point K) : Prop := Rounding.IsFinite p.x ∧ Rounding.IsFinite p.y

def Rect.IsModest (rect : Rect K) : Prop :=
  ∀ direction, Rounding.IsModest (rect.extent direction)

theorem Rect.IsModest.of_cut {rect part : Rect K} {direction : Direction} {ratios : List K}
    (modest : rect.IsModest) (ordered : Ordered ratios)
    (listed : part ∈ rect.cut direction ratios) : part.IsModest := by
  have along : Rounding.IsModest (part.extent direction) := by
    have extents : part.extent direction ∈
        (Rect.spans 0 ratios).map (rect.extent direction * ·) := by
      rw [← Rect.extent_cutFrom]
      exact List.mem_map_of_mem listed
    obtain ⟨span, inside, same⟩ := List.mem_map.mp extents
    obtain ⟨finite, -, smaller⟩ :=
      mul_fraction (isFinite_of_isModest (modest direction)) (ordered.spans.1 span inside)
    rw [← same]
    exact isModest_of_le (isNumber_of_isFinite finite) (modest direction) smaller
  have across : Rounding.IsModest (part.extent direction.flip) := by
    rw [Rect.extent_flip_of_mem_cutFrom listed]
    exact modest direction.flip
  intro other
  cases direction <;> cases other
  · exact along
  · exact across
  · exact across
  · exact along

end DockLayout
