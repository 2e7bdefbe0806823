import DockLayout.Proofs.Numbers.OrderedEdits
import DockLayout.Tree.Persist

/-!
# Ratios brought within bounds

Reading a layout brings all ratios but the last within the bounds. Ordered
ratios stay ordered, so reading never refuses them, and they are left as they
are exactly when they were within the bounds.
-/

set_option autoImplicit false

namespace DockLayout

open Rounding

variable {K : Type} [Scalar K]

def Split.WithinBounds (ratios : List K) : Prop :=
  ∀ ratio ∈ ratios.dropLast, minRatio K ≤ ratio ∧ ratio ≤ maxRatio K

namespace Split

theorem boundedRatios_append (first : List K) (last : K) :
    boundedRatios (first ++ [last]) = first.map bounded ++ [last] := by
  induction first with
  | nil => rfl
  | cons ratio rest ih =>
    cases rest with
    | nil => rfl
    | cons next others =>
      change bounded ratio :: boundedRatios (next :: others ++ [last]) = _
      rw [ih]
      rfl

theorem length_boundedRatios (ratios : List K) :
    (boundedRatios ratios).length = ratios.length := by
  rcases List.eq_nil_or_concat ratios with rfl | ⟨first, last, rfl⟩
  · rfl
  · rw [List.concat_eq_append, boundedRatios_append]
    simp

variable [Rounding K]

theorem bounded_mono {first second : K} (left : IsNumber first) (right : IsNumber second)
    (order : value first ≤ value second) : value (bounded first) ≤ value (bounded second) := by
  have firstValue := (clamp_between left isFinite_minRatio isFinite_maxRatio
    minRatio_le_maxRatio).2.2.2
  have secondValue := (clamp_between right isFinite_minRatio isFinite_maxRatio
    minRatio_le_maxRatio).2.2.2
  rw [bounded, bounded, firstValue, secondValue]
  exact min_le_min_right _ (max_le_max_right _ order)

theorem bounded_eq_self_iff {ratio : K} (number : IsNumber ratio) :
    bounded ratio = ratio ↔ minRatio K ≤ ratio ∧ ratio ≤ maxRatio K := by
  have least := isNumber_of_isFinite (isFinite_minRatio (K := K))
  have greatest := isNumber_of_isFinite (isFinite_maxRatio (K := K))
  constructor
  · intro same
    obtain ⟨-, above, below, -⟩ := clamp_between number isFinite_minRatio isFinite_maxRatio
      minRatio_le_maxRatio
    rw [← bounded, same] at above below
    exact ⟨(le_iff least number).mpr above, (le_iff number greatest).mpr below⟩
  · rintro ⟨above, below⟩
    have notLess : ¬ ratio < minRatio K := by
      rw [lt_iff number least, not_lt]
      exact (le_iff least number).mp above
    have notMore : ¬ maxRatio K < ratio := by
      rw [lt_iff greatest number, not_lt]
      exact (le_iff number greatest).mp below
    rw [bounded, clamp, greater, if_neg notLess, lesser, if_neg notMore]

end Split

variable [Rounding K]

namespace Ordered

variable {ratios : List K}

theorem split_last (ordered : Ordered ratios) : ∃ first, ratios = first ++ [1] :=
  List.getLast?_eq_some_iff.mp ordered.last

theorem bounded (ordered : Ordered ratios) : Ordered (Split.boundedRatios ratios) := by
  obtain ⟨first, rfl⟩ := ordered.split_last
  have numbers : ∀ ratio ∈ first, IsNumber ratio := fun ratio listed =>
    isNumber_of_isFinite (ordered.fraction ratio (List.mem_append_left [1] listed)).finite
  obtain ⟨ascending, -, -⟩ := List.pairwise_append.mp ordered.ascending
  rw [Split.boundedRatios_append]
  refine ⟨List.pairwise_append.mpr ⟨?_, List.pairwise_singleton _ _, ?_⟩, ?_, by simp⟩
  · rw [List.pairwise_map]
    refine ascending.imp_of_mem fun left right order => ?_
    exact Split.bounded_mono (numbers _ left) (numbers _ right) order
  · intro ratio listed last single
    obtain ⟨origin, present, rfl⟩ := List.mem_map.mp listed
    rw [List.mem_singleton.mp single, value_one]
    exact (isFraction_bounded (numbers origin present)).le_one
  · intro ratio listed
    rcases List.mem_append.mp listed with inner | single
    · obtain ⟨origin, present, rfl⟩ := List.mem_map.mp inner
      exact isFraction_bounded (numbers origin present)
    · rw [List.mem_singleton.mp single]
      exact isFraction_one

theorem hasDescent (ordered : Ordered ratios) : Split.hasDescent ratios = false := by
  obtain ⟨ascending, fraction, -⟩ := ordered
  induction ratios with
  | nil => rfl
  | cons first rest ih =>
    cases rest with
    | nil => rfl
    | cons second others =>
      obtain ⟨here, later⟩ := List.pairwise_cons.mp ascending
      have left := isNumber_of_isFinite (fraction first (by simp)).finite
      have right := isNumber_of_isFinite (fraction second (by simp)).finite
      have step : ¬ second < first := by
        rw [lt_iff right left, not_lt]
        exact here second List.mem_cons_self
      have below := ih later fun ratio listed => fraction ratio (List.mem_cons_of_mem first listed)
      rw [Split.hasDescent, below, decide_eq_false step]
      rfl

theorem pairwise_of_hasDescent (numbers : ∀ ratio ∈ ratios, IsNumber ratio)
    (ascending : Split.hasDescent ratios = false) :
    ratios.Pairwise fun first second => value first ≤ value second := by
  have transitive : IsTrans K fun first second => value first ≤ value second :=
    ⟨fun _ _ _ => le_trans⟩
  rw [← List.isChain_iff_pairwise]
  induction ratios with
  | nil => exact .nil
  | cons first rest ih =>
    cases rest with
    | nil => exact .singleton first
    | cons second others =>
      have left := numbers first List.mem_cons_self
      have right := numbers second (List.mem_cons_of_mem first List.mem_cons_self)
      rw [Split.hasDescent, Bool.or_eq_false_iff, decide_eq_false_iff_not, lt_iff right left,
        not_lt] at ascending
      have later := ih (fun ratio listed => numbers ratio (List.mem_cons_of_mem first listed))
        ascending.2
      exact .cons_cons ascending.1 later

theorem of_checked (numbers : ∀ ratio ∈ ratios, IsNumber ratio)
    (ascending : Split.hasDescent (Split.boundedRatios ratios) = false)
    (last : (Split.boundedRatios ratios).getLast? = some 1) :
    Ordered (Split.boundedRatios ratios) := by
  have fractions : ∀ ratio ∈ Split.boundedRatios ratios, IsFraction ratio := by
    obtain rfl | ⟨first, final, rfl⟩ := List.eq_nil_or_concat ratios
    · cases last
    · rw [List.concat_eq_append] at numbers last ⊢
      rw [Split.boundedRatios_append] at last ⊢
      obtain rfl : final = 1 := by simpa using last
      intro ratio listed
      rcases List.mem_append.mp listed with inner | single
      · obtain ⟨origin, present, rfl⟩ := List.mem_map.mp inner
        exact isFraction_bounded (numbers origin (List.mem_append_left [1] present))
      · rw [List.mem_singleton.mp single]
        exact isFraction_one
  have finite : ∀ ratio ∈ Split.boundedRatios ratios, IsNumber ratio :=
    fun ratio listed => isNumber_of_isFinite (fractions ratio listed).finite
  exact ⟨pairwise_of_hasDescent finite ascending, fractions, last⟩

theorem boundedRatios_eq_self_iff (ordered : Ordered ratios) :
    Split.boundedRatios ratios = ratios ↔ Split.WithinBounds ratios := by
  obtain ⟨first, rfl⟩ := ordered.split_last
  have numbers : ∀ ratio ∈ first, IsNumber ratio := fun ratio listed =>
    isNumber_of_isFinite (ordered.fraction ratio (List.mem_append_left [1] listed)).finite
  rw [Split.boundedRatios_append, Split.WithinBounds, List.dropLast_concat,
    List.append_left_inj]
  constructor
  · intro same ratio listed
    have kept : Split.bounded ratio = ratio :=
      List.map_eq_map_iff.mp (same.trans (List.map_id first).symm) ratio listed
    exact (Split.bounded_eq_self_iff (numbers ratio listed)).mp kept
  · intro within
    refine (List.map_congr_left fun ratio listed => ?_).trans (List.map_id first)
    exact (Split.bounded_eq_self_iff (numbers ratio listed)).mpr (within ratio listed)

end Ordered

end DockLayout
