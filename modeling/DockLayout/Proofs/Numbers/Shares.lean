import DockLayout.Proofs.Numbers.ExactSplice

/-!
# Shares of a place

Areas that take the place of a child share it by their extents, or evenly where these
add up to nothing. Without rounding the fractions at which they end are ordered, and what
lies between two of them is in proportion to the weight of the area.
-/

set_option autoImplicit false

namespace DockLayout

theorem total_eq_sum (values : List ℚ) : total values = values.sum :=
  List.sum_eq_foldl.symm

namespace Split

/-! ## Weights -/

section Weights

variable {direction : Direction} {areas : List (Area ℚ)}

theorem weights_of_pos (positive : 0 < (areas.map fun area => area.rect.extent direction).sum) :
    weights direction areas = (areas.map fun area => area.rect.extent direction,
      (areas.map fun area => area.rect.extent direction).sum) := by
  rw [weights, total_eq_sum, if_neg (not_le.mpr positive)]

theorem weights_of_nonpos
    (none : ¬ 0 < (areas.map fun area => area.rect.extent direction).sum) :
    weights direction areas = (List.replicate areas.length 1, (areas.length : ℚ)) := by
  rw [weights, total_eq_sum, if_pos (not_lt.mp none)]

theorem weights_parts (some : areas ≠ [])
    (nonneg : ∀ area ∈ areas, 0 ≤ area.rect.extent direction) :
    0 < (weights direction areas).2 ∧
      (∀ weight ∈ (weights direction areas).1, 0 ≤ weight) ∧
      (weights direction areas).1.sum = (weights direction areas).2 := by
  by_cases positive : 0 < (areas.map fun area => area.rect.extent direction).sum
  · rw [weights_of_pos positive]
    refine ⟨positive, ?_, rfl⟩
    intro weight listed
    obtain ⟨area, member, rfl⟩ := List.mem_map.mp listed
    exact nonneg area member
  · rw [weights_of_nonpos positive]
    refine ⟨Nat.cast_pos.mpr (List.length_pos_of_ne_nil some), ?_, ?_⟩
    · intro weight listed
      rw [List.eq_of_mem_replicate listed]
      exact zero_le_one
    · rw [List.sum_replicate, nsmul_eq_mul, mul_one]

end Weights

/-! ## Fractions -/

section Fractions

theorem fractions_getLastD (whole reached : ℚ) (weights : List ℚ) :
    (fractions whole reached weights).getLastD (reached / whole) =
      (reached + weights.sum) / whole := by
  induction weights generalizing reached with
  | nil => rw [fractions, List.getLastD_nil, List.sum_nil, add_zero]
  | cons weight rest ih => rw [fractions, List.getLastD_cons, ih, List.sum_cons, add_assoc]

variable {whole : ℚ} {weights : List ℚ} (positive : 0 < whole)
  (nonneg : ∀ weight ∈ weights, 0 ≤ weight)

include positive nonneg

theorem fractions_ascending (reached : ℚ) :
    (reached / whole :: fractions whole reached weights).Pairwise (· ≤ ·) := by
  induction weights generalizing reached with
  | nil => exact List.pairwise_singleton _ _
  | cons weight rest ih =>
    have grows : reached / whole ≤ (reached + weight) / whole :=
      div_le_div_of_nonneg_right (le_add_of_nonneg_right (nonneg weight List.mem_cons_self))
        positive.le
    have later := ih (fun other listed => nonneg other (List.mem_cons_of_mem weight listed))
      (reached + weight)
    refine List.pairwise_cons.mpr ⟨?_, later⟩
    intro share listed
    rcases List.mem_cons.mp listed with rfl | after
    · exact grows
    · exact grows.trans ((List.pairwise_cons.mp later).1 share after)

theorem spans_fractions_eq (reached : ℚ) :
    Rect.spans (reached / whole) (fractions whole reached weights) =
      weights.map (· / whole) := by
  induction weights generalizing reached with
  | nil => rfl
  | cons weight rest ih =>
    have ascending := fractions_ascending positive nonneg reached
    have grows := (List.pairwise_cons.mp ascending).1 _ List.mem_cons_self
    have others := ih (fun other listed => nonneg other (List.mem_cons_of_mem weight listed))
      (reached + weight)
    rw [fractions, Rect.spans_cons grows, others, ← sub_div, add_sub_cancel_left, List.map_cons]

end Fractions

/-! ## Shares -/

theorem length_fractions (whole reached : ℚ) (weights : List ℚ) :
    (fractions whole reached weights).length = weights.length := by
  induction weights generalizing reached with
  | nil => rfl
  | cons weight rest ih => rw [fractions, List.length_cons, ih, List.length_cons]

theorem length_shares (direction : Direction) (areas : List (Area ℚ)) :
    (shares direction areas).length = areas.length := by
  rw [shares, length_fractions, length_weights]

section Shares

variable {direction : Direction} {areas : List (Area ℚ)} (some : areas ≠ [])
  (nonneg : ∀ area ∈ areas, 0 ≤ area.rect.extent direction)

include some nonneg

theorem ordered_shares : Ordered (shares direction areas) := by
  obtain ⟨positive, parts, sum⟩ := weights_parts some nonneg
  have ascending := fractions_ascending positive parts 0
  have final := fractions_getLastD (weights direction areas).2 0 (weights direction areas).1
  rw [zero_div] at ascending final
  rw [zero_add, sum, div_self positive.ne'] at final
  exact Exact.ordered_of_getLastD ascending final

theorem extents_cut_shares (r : Rect ℚ) :
    (r.cut direction (shares direction areas)).map (Rect.extent · direction) =
      (weights direction areas).1.map fun weight =>
        r.extent direction * (weight / (weights direction areas).2) := by
  obtain ⟨positive, parts, -⟩ := weights_parts some nonneg
  have spans := spans_fractions_eq positive parts 0
  rw [zero_div] at spans
  rw [Rect.cut, Rect.extent_cutFrom, shares, spans, List.map_map]
  rfl

end Shares

end Split

/-- Areas that share the place of a child leave the ratios ordered. -/
theorem Ordered.shared {s : Split ℚ} {index : Nat} {areas : List (Area ℚ)}
    (ordered : Ordered s.ratios) (inside : index < s.ratios.length)
    (shared : Ordered (Split.shares s.direction areas)) :
    Ordered (s.splicedRatios index areas) := by
  obtain ⟨ascending, fraction, -⟩ := Exact.ordered_iff.mp shared
  have order := sub_nonneg.mpr (Split.previousRatio_le ordered inside)
  have ends := Split.ends_eq_map ordered inside shared
  refine ordered.splice inside ?_ ?_
  · rw [ends]
    intro ratio listed
    obtain ⟨share, member, rfl⟩ := List.mem_map.mp listed
    obtain ⟨nonneg, atMost⟩ := fraction share member
    -- no share begins before the place or ends behind it
    have more := mul_nonneg order nonneg
    have less := mul_le_of_le_one_right order atMost
    have above : Split.previousRatio s.ratios index ≤ Split.previousRatio s.ratios index +
        (s.ratios[index] - Split.previousRatio s.ratios index) * share := by linarith
    have below : Split.previousRatio s.ratios index +
        (s.ratios[index] - Split.previousRatio s.ratios index) * share ≤ s.ratios[index] := by
      linarith
    exact ⟨.of_between trivial (ordered.previous inside).1
      (ordered.fraction _ (List.getElem_mem inside)) above below, above, below⟩
  · rw [ends]
    refine List.pairwise_map.mpr (ascending.imp ?_)
    intro first second less
    exact add_le_add_right (mul_le_mul_of_nonneg_left less order) _

end DockLayout
