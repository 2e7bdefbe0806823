import Mathlib.Data.List.GetD
import DockLayout.Proofs.Numbers.Ordered
import DockLayout.Proofs.Tree.Regime

/-!
# Edits of ordered ratios

Every edit of a split keeps its ratios ordered. What is moved stays between its
neighbours, what is removed leaves the others in order, and what is spliced in
stays within the place it is given.
-/

set_option autoImplicit false

namespace DockLayout

open Rounding

variable {K : Type} [Scalar K] [Rounding K]

namespace Ordered

variable {ratios : List K}

/-! ## Positions -/

theorem monotone (ordered : Ordered ratios) {first second : Nat} (early : first < ratios.length)
    (inside : second < ratios.length) (order : first ≤ second) :
    value ratios[first] ≤ value ratios[second] := by
  rcases Nat.lt_or_eq_of_le order with less | rfl
  · exact List.pairwise_iff_getElem.mp ordered.ascending first second _ inside less
  · exact le_refl _

theorem previous (ordered : Ordered ratios) {index : Nat} (inside : index < ratios.length) :
    IsFraction (Split.previousRatio ratios index) ∧
      (∀ ratio ∈ ratios.take index, value ratio ≤ value (Split.previousRatio ratios index)) ∧
      value (Split.previousRatio ratios index) ≤ value ratios[index] := by
  cases index with
  | zero =>
    refine ⟨isFraction_zero, by simp, ?_⟩
    rw [Split.previousRatio, value_zero]
    exact (ordered.fraction _ (List.getElem_mem inside)).nonneg
  | succ index =>
    have within : index < ratios.length := Nat.lt_of_succ_lt inside
    have same : Split.previousRatio ratios (index + 1) = ratios[index] := by
      rw [Split.previousRatio, List.getD_eq_getElem ratios 0 within]
    rw [same]
    refine ⟨ordered.fraction _ (List.getElem_mem within), ?_,
      ordered.monotone within inside (Nat.le_succ index)⟩
    intro ratio listed
    obtain ⟨position, before, rfl⟩ := List.mem_iff_getElem.mp listed
    rw [List.length_take] at before
    rw [List.getElem_take]
    exact ordered.monotone (by omega) within (by omega)

theorem following (ordered : Ordered ratios) {index : Nat} (inside : index < ratios.length) :
    ∀ ratio ∈ ratios.drop (index + 1), value ratios[index] ≤ value ratio := by
  intro ratio listed
  obtain ⟨position, within, rfl⟩ := List.mem_iff_getElem.mp listed
  rw [List.length_drop] at within
  rw [List.getElem_drop]
  exact ordered.monotone (by omega) (by omega) (by omega)

theorem getElem_of_last (ordered : Ordered ratios) {index : Nat} (inside : index < ratios.length)
    (final : index + 1 = ratios.length) : ratios[index] = 1 := by
  have last := ordered.last
  rw [List.getLast?_eq_getElem?, ← final, Nat.add_sub_cancel,
    List.getElem?_eq_getElem inside] at last
  exact Option.some.inj last

theorem replace (ordered : Ordered ratios) {index : Nat} (inside : index < ratios.length)
    {new : List K} (ascending : new.Pairwise fun first second => value first ≤ value second)
    (fraction : ∀ ratio ∈ new, IsFraction ratio)
    (above : ∀ ratio ∈ new, value (Split.previousRatio ratios index) ≤ value ratio)
    (below : ∀ ratio ∈ new, ∀ later ∈ ratios.drop (index + 1), value ratio ≤ value later)
    (last : index + 1 = ratios.length → new.getLast? = some 1) :
    Ordered (ratios.take index ++ new ++ ratios.drop (index + 1)) where
  ascending := by
    obtain ⟨-, earlier, before⟩ := ordered.previous inside
    refine List.pairwise_append.mpr ⟨List.pairwise_append.mpr ⟨?_, ascending, ?_⟩, ?_, ?_⟩
    · exact ordered.ascending.sublist (List.take_sublist index ratios)
    · intro first listed second inserted
      exact (earlier first listed).trans (above second inserted)
    · exact ordered.ascending.sublist (List.drop_sublist (index + 1) ratios)
    · intro first listed second later
      rcases List.mem_append.mp listed with kept | inserted
      · exact (earlier first kept).trans (before.trans (ordered.following inside second later))
      · exact below first inserted second later
  fraction := by
    intro ratio listed
    rcases List.mem_append.mp listed with listed | later
    · rcases List.mem_append.mp listed with kept | inserted
      · exact ordered.fraction ratio (List.mem_of_mem_take kept)
      · exact fraction ratio inserted
    · exact ordered.fraction ratio (List.mem_of_mem_drop later)
  last := by
    rcases Nat.lt_or_eq_of_le (Nat.succ_le_of_lt inside) with more | final
    · rw [List.getLast?_append_of_ne_nil, List.getLast?_drop, if_neg (by omega)]
      · exact ordered.last
      · intro empty
        have count := congrArg List.length empty
        rw [List.length_drop, List.length_nil] at count
        omega
    · have none : ratios.drop (index + 1) = [] := List.drop_eq_nil_of_le (by omega)
      have ends := last final
      rw [none, List.append_nil, List.getLast?_append, ends]
      rfl

/-! ## Construction and removal -/

theorem isFraction_bounded {ratio : K} (number : IsNumber ratio) :
    IsFraction (Split.bounded ratio) := by
  obtain ⟨finite, above, below, -⟩ :=
    clamp_between number isFinite_minRatio isFinite_maxRatio minRatio_le_maxRatio
  exact .of_between (isNumber_of_isFinite finite) isFraction_minRatio isFraction_maxRatio
    above below

theorem pair {share : K} (number : IsNumber share) : Ordered [Split.bounded share, 1] where
  ascending := by
    apply List.pairwise_pair.mpr
    rw [value_one]
    exact (isFraction_bounded number).le_one
  fraction := by
    intro ratio listed
    rcases List.mem_pair.mp listed with rfl | rfl
    · exact isFraction_bounded number
    · exact isFraction_one
  last := rfl

theorem without (ordered : Ordered ratios) {index : Nat} (inside : index < ratios.length) :
    Ordered (Split.ratiosWithout ratios index) := by
  have count : (ratios.eraseIdx index).length = ratios.length - 1 :=
    List.length_eraseIdx_of_lt inside
  have ascending := ordered.ascending.sublist (List.eraseIdx_sublist ratios index)
  have fraction : ∀ ratio ∈ ratios.eraseIdx index, IsFraction ratio :=
    fun ratio listed => ordered.fraction ratio (List.mem_of_mem_eraseIdx listed)
  rw [Split.ratiosWithout]
  split
  · refine ⟨List.pairwise_append.mpr ⟨?_, List.pairwise_singleton _ _, ?_⟩, ?_, by simp⟩
    · exact ascending.sublist (List.dropLast_sublist _)
    · intro first listed second single
      rw [List.mem_singleton.mp single, value_one]
      exact (fraction first (List.mem_of_mem_dropLast listed)).le_one
    · intro ratio listed
      rcases List.mem_append.mp listed with kept | single
      · exact fraction ratio (List.mem_of_mem_dropLast kept)
      · rw [List.mem_singleton.mp single]
        exact isFraction_one
  · rename_i inner
    refine ⟨ascending, fraction, ?_⟩
    rw [count] at inner
    have final : (ratios.eraseIdx index).getLast? = ratios.getLast? := by
      rw [List.getLast?_eq_getElem?, List.getLast?_eq_getElem?, count,
        List.getElem?_eraseIdx_of_ge (by omega)]
      congr 1
      omega
    rw [final]
    exact ordered.last

/-! ## Moving a boundary -/

theorem isNumber_ratioDelta {s : Split K} {delta : Point K} (modest : s.rect.IsModest)
    (numeric : delta.IsNumeric) : IsNumber (s.ratioDelta delta) := by
  have extent := isFinite_of_isModest (modest s.direction)
  have along : IsNumber (delta.along s.direction) := by
    cases s.direction
    · exact numeric.2
    · exact numeric.1
  rw [Split.ratioDelta]
  split
  · exact isNumber_of_isFinite isFinite_zero
  · rename_i some
    apply isNumber_div (isNumber_neg along) extent
    rw [← value_zero (K := K)]
    exact fun none => some
      ((beq_iff (isNumber_of_isFinite extent) (isNumber_of_isFinite isFinite_zero)).mpr none)

theorem moved {s : Split K} {index : Nat} {delta : Point K} (ordered : Ordered s.ratios)
    (number : IsNumber (s.ratioDelta delta)) (inside : index + 1 < s.ratios.length) :
    Ordered (s.ratios.set index (s.movedRatio index delta)) := by
  have within : index < s.ratios.length := Nat.lt_of_succ_lt inside
  obtain ⟨low, -, before⟩ := ordered.previous within
  have next : s.ratios.getD (index + 1) 1 = s.ratios[index + 1] :=
    List.getD_eq_getElem s.ratios 1 inside
  have high : IsFraction s.ratios[index + 1] := ordered.fraction _ (List.getElem_mem inside)
  have room := before.trans (ordered.monotone (by omega) inside (Nat.le_succ index))
  have old : IsFinite (s.ratios.getD index 0) := by
    rw [List.getD_eq_getElem s.ratios 0 within]
    exact (ordered.fraction _ (List.getElem_mem within)).finite
  have asked := isFraction_bounded (isNumber_add old number)
  obtain ⟨finite, above, below, -⟩ :=
    clamp_between (isNumber_of_isFinite asked.finite) low.finite high.finite room
  rw [List.set_eq_take_append_cons_drop, if_pos within, ← List.singleton_append,
    ← List.append_assoc, Split.movedRatio, next]
  refine ordered.replace within (List.pairwise_singleton _ _) ?_ ?_ ?_ ?_
  · intro ratio listed
    rw [List.mem_singleton.mp listed]
    exact .of_between (isNumber_of_isFinite finite) low high above below
  · intro ratio listed
    rw [List.mem_singleton.mp listed]
    exact above
  · intro ratio listed later member
    rw [List.mem_singleton.mp listed]
    apply below.trans
    obtain ⟨position, place, rfl⟩ := List.mem_iff_getElem.mp member
    rw [List.length_drop] at place
    rw [List.getElem_drop]
    exact ordered.monotone (by omega) (by omega) (by omega)
  · intro final
    omega

end Ordered

end DockLayout
