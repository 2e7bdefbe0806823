import Mathlib.Algebra.Order.Group.Abs
import DockLayout.Proofs.Tree.Closing
import DockLayout.Proofs.Tree.InOrder

/-!
# The nearest place for a boundary

A boundary that is moved goes as near to where it is asked to go as the bounds and its
neighbours let it. Where a neighbour lies beyond a bound, the neighbour decides alone. The two
children on either side of the boundary share their place anew, and nothing else changes.
-/

set_option autoImplicit false

namespace DockLayout

/-! ## Limits -/

theorem abs_sub_clamp_lt {low high asked point : ℚ} (order : low ≤ high)
    (inside : point ∈ Set.Icc low high) (other : point ≠ min (max asked low) high) :
    |asked - min (max asked low) high| < |asked - point| := by
  obtain ⟨above, below⟩ := inside
  by_cases early : asked < low
  · rw [max_eq_right early.le, min_eq_left order] at other ⊢
    have beyond := lt_of_le_of_ne above other.symm
    rw [abs_of_neg (by linarith), abs_of_neg (by linarith)]
    linarith
  rw [max_eq_left (not_lt.mp early)] at other ⊢
  by_cases late : high < asked
  · rw [min_eq_right late.le] at other ⊢
    have before := lt_of_le_of_ne below other
    rw [abs_of_pos (by linarith), abs_of_pos (by linarith)]
    linarith
  · rw [min_eq_left (not_lt.mp late)] at other ⊢
    rw [sub_self, abs_zero]
    exact abs_pos.mpr (sub_ne_zero.mpr other.symm)

namespace Split

/-- Where a boundary comes to lie between two others that is asked to be somewhere: as near to it
as the bounds and the other two let it, or at the one of them that lies beyond a bound. -/
structure Settles (previous next asked moved : ℚ) : Prop where
  nearest : previous ≤ maxRatio ℚ → minRatio ℚ ≤ next →
    moved ∈ Set.Icc (max previous (minRatio ℚ)) (min next (maxRatio ℚ)) ∧
      ∀ point ∈ Set.Icc (max previous (minRatio ℚ)) (min next (maxRatio ℚ)),
        point ≠ moved → |asked - moved| < |asked - point|
  above : maxRatio ℚ < previous → moved = previous
  below : next < minRatio ℚ → moved = next

theorem settles_clamp {previous next : ℚ} (order : previous ≤ next) (asked : ℚ) :
    Settles previous next asked (clamp (bounded asked) previous next) := by
  have bounds : minRatio ℚ ≤ maxRatio ℚ := Rounding.minRatio_le_maxRatio (K := ℚ)
  rw [clamp_eq, bounded, clamp_eq]
  refine ⟨?_, ?_, ?_⟩
  · intro early late
    have window : max previous (minRatio ℚ) ≤ min next (maxRatio ℚ) :=
      max_le (le_min order early) (le_min late bounds)
    -- both limits at once, the lower ones first
    have once : min (max (min (max asked (minRatio ℚ)) (maxRatio ℚ)) previous) next =
        min (max asked (max previous (minRatio ℚ))) (min next (maxRatio ℚ)) := by
      rw [max_min_distrib_right, max_eq_left early, max_assoc, max_comm (minRatio ℚ), min_assoc,
        min_comm (maxRatio ℚ)]
    rw [once]
    refine ⟨⟨le_min (le_max_right _ _) window, min_le_right _ _⟩, ?_⟩
    intro point inside other
    exact abs_sub_clamp_lt window inside other
  · intro beyond
    rw [max_eq_right ((min_le_right _ _).trans beyond.le), min_eq_left order]
  · intro beyond
    have short : next ≤ min (max asked (minRatio ℚ)) (maxRatio ℚ) :=
      le_min (beyond.le.trans (le_max_right _ _)) (beyond.le.trans bounds)
    exact min_eq_right (short.trans (le_max_left _ _))

/-! ## Places -/

variable {s : Split ℚ}

theorem relayout_moved (inOrder : s.InOrder) (upToDate : ∀ child ∈ s.children, child.UpToDate)
    {index : Nat} (movable : index + 1 < s.ratios.length) {moved : ℚ}
    (reordered : Ordered (s.ratios.set index moved)) :
    ∃ front back first second, s.children = front ++ first :: second :: back ∧
      front.length = index ∧
      relayout { s with ratios := s.ratios.set index moved } =
        { s with
          ratios := s.ratios.set index moved
          children := front ++
            first.resize (s.rect.slab s.direction (previousRatio s.ratios index)
              (moved - previousRatio s.ratios index)) ::
            second.resize (s.rect.slab s.direction moved (s.ratios[index + 1] - moved)) ::
            back } := by
  obtain ⟨front, back, first, second, children, place⟩ := exists_adjacent (inOrder.count ▸ movable)
  obtain ⟨before, after, here, next, ratios, size⟩ := exists_adjacent movable
  refine ⟨front, back, first, second, children, place, ?_⟩
  have previous : previousRatio s.ratios index = before.getLastD 0 := by
    rw [previousRatio_eq (Nat.lt_of_succ_lt movable), ratios, ← size, List.take_left]
  have following : s.ratios[index + 1] = next := by
    rw [List.getElem_eq_iff, ratios, ← size, List.getElem?_append_right (Nat.le_add_right _ 1),
      Nat.add_sub_cancel_left]
    rfl
  have changed : s.ratios.set index moved = before ++ moved :: next :: after := by
    rw [ratios, ← size, List.set_append_right _ _ (Nat.le_refl _), Nat.sub_self, List.set_cons_zero]
  have again := Exact.pairwise_zero reordered
  rw [changed] at again
  obtain ⟨fronts, -, -, backs⟩ := placed_besides inOrder.ordered inOrder.placed children ratios
    (size.trans place.symm)
  have still : ∀ area ∈ front ++ back, area.resize area.rect = area := by
    intro area listed
    have member : area ∈ s.children := children ▸ mem_of_mem_besides listed
    exact (upToDate area member).resize_eq
  have count : [first, second].length =
      [s.rect.slab s.direction (before.getLastD 0) (moved - before.getLastD 0),
        s.rect.slab s.direction moved (next - moved)].length := rfl
  have laid := Area.resizeEach_between count still
  simp only [List.append_assoc, List.cons_append, List.nil_append, List.zipWith_cons_cons,
    List.zipWith_nil_left] at laid
  simp only [relayout, previous, following, changed]
  rw [children, Rect.cut_adjacent again, ← fronts, ← backs, laid]

/-! ## Moving a boundary -/

/-- A boundary goes to the nearest place the bounds and its neighbours leave it. The
displacement counts against its direction and as a fraction of the extent; without an extent it
does not count. All other ratios stay, and only the two children beside the boundary are
handed other rectangles. -/
theorem changeRatio_moves_to_nearest (inOrder : s.InOrder)
    (upToDate : ∀ child ∈ s.children, child.UpToDate) {index : Nat}
    (movable : index + 1 < s.ratios.length) (delta : Point ℚ) :
    ∃ moved front back first second,
      Settles (previousRatio s.ratios index) s.ratios[index + 1]
        (s.ratios[index] + if s.rect.extent s.direction = 0 then 0
          else -delta.along s.direction / s.rect.extent s.direction) moved ∧
      s.children = front ++ first :: second :: back ∧ front.length = index ∧
      s.changeRatio index delta = .quiet { s with
        ratios := s.ratios.set index moved
        children := front ++
          first.resize (s.rect.slab s.direction (previousRatio s.ratios index)
            (moved - previousRatio s.ratios index)) ::
          second.resize (s.rect.slab s.direction moved (s.ratios[index + 1] - moved)) ::
          back } () := by
  have ordered := inOrder.ordered
  have inside : index < s.ratios.length := Nat.lt_of_succ_lt movable
  have order : previousRatio s.ratios index ≤ s.ratios[index + 1] :=
    (previousRatio_le ordered inside).trans (ordered.monotone inside movable (Nat.le_succ index))
  have reordered : Ordered (s.ratios.set index (s.movedRatio index delta)) :=
    ordered.moved trivial movable
  obtain ⟨front, back, first, second, children, place, laid⟩ :=
    relayout_moved inOrder upToDate movable reordered
  have shift : s.ratioDelta delta = if s.rect.extent s.direction = 0 then 0
      else -delta.along s.direction / s.rect.extent s.direction := by
    simp only [ratioDelta, beq_iff_eq]
  have settles := settles_clamp order (s.ratios[index] + s.ratioDelta delta)
  have moved : s.movedRatio index delta = clamp (bounded (s.ratios[index] + s.ratioDelta delta))
      (previousRatio s.ratios index) s.ratios[index + 1] := by
    rw [movedRatio, List.getD_eq_getElem s.ratios 0 inside, List.getD_eq_getElem s.ratios 1 movable]
  rw [← moved, shift] at settles
  refine ⟨s.movedRatio index delta, front, back, first, second, settles, children, place, ?_⟩
  rw [s.changeRatio_of_lt movable, laid]

/-- Four columns, three of them in the last hundredth of the width. -/
def squeezed : Split ℚ :=
  (Split.pair .vertical (99 / 100) ⟨1⟩ ⟨0, 0, 100, 50⟩ (vacant 0) (vacant 0)).run
    [.insertChild 1 (vacant 0), .insertChild 2 (vacant 0)]

/-- Behind the upper bound a boundary goes back as far as the one before it. The boundary after
one that is at the bound can only go there. -/
theorem changeRatio_moves_to_nearest_of_squeezed :
    squeezed.InOrder ∧ (∀ child ∈ squeezed.children, child.UpToDate) ∧
    2 + 1 < squeezed.ratios.length ∧
    squeezed.ratios = [99 / 100, 199 / 200, 399 / 400, 1] ∧
    (squeezed.changeRatio (2 : Nat) ⟨50, 0⟩).state.ratios =
      [99 / 100, 199 / 200, 199 / 200, 1] ∧
    (squeezed.changeRatio (1 : Nat) ⟨-50, 0⟩).state.ratios =
      [99 / 100, 99 / 100, 399 / 400, 1] := by
  have inOrder : squeezed.InOrder :=
    (Built.pair _ _ _ _ _ _).inOrder.run (by simp [SplitEdit.Admissible])
  have upToDate : ∀ child ∈ squeezed.children, child.UpToDate :=
    Area.upToDate_of_containers (by decide +kernel)
  have ratios : squeezed.ratios = [99 / 100, 199 / 200, 399 / 400, 1] := by decide +kernel
  obtain ⟨moved, _, _, _, _, settles, -, -, third⟩ := @changeRatio_moves_to_nearest squeezed
    inOrder upToDate 2 (by decide +kernel) ⟨50, 0⟩
  obtain rfl := settles.above (by decide +kernel)
  obtain ⟨moved, _, _, _, _, settles, -, -, second⟩ := @changeRatio_moves_to_nearest squeezed
    inOrder upToDate 1 (by decide +kernel) ⟨-50, 0⟩
  obtain ⟨⟨low, high⟩, -⟩ := settles.nearest (by decide +kernel) (by decide +kernel)
  have bound : moved = 99 / 100 := by
    apply le_antisymm
    · exact high.trans (by decide +kernel)
    · exact le_trans (by decide +kernel) low
  refine ⟨inOrder, upToDate, by decide +kernel, ratios, ?_, ?_⟩
  · rw [third]
    change squeezed.ratios.set 2 (previousRatio squeezed.ratios 2) = _
    decide +kernel
  · rw [second, bound]
    change squeezed.ratios.set 1 (99 / 100) = _
    rw [ratios]
    rfl

end Split

end DockLayout
