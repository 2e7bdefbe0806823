import DockLayout.Proofs.Plane.Tiling
import DockLayout.Proofs.Tree.InOrder

/-!
# Substituting areas for a child

Areas that replace a child share its place in proportion to the extents they had, or evenly
where they had none. They tile the place, and the other children stay where they are.
-/

set_option autoImplicit false

namespace DockLayout.Split

variable {s : Split ℚ} {index : Nat} {child : Area ℚ} {areas : List (Area ℚ)}

theorem cut_shared (inOrder : s.InOrder) (present : s.children[index]? = some child)
    (shared : Ordered (shares s.direction areas)) :
    s.rect.cut s.direction (s.splicedRatios index areas) =
      (s.children.take index).map Area.rect ++
        child.rect.cut s.direction (shares s.direction areas) ++
        (s.children.drop (index + 1)).map Area.rect := by
  have ordered := inOrder.ordered
  have placed := inOrder.placed
  have inside := inside_of_present placed present
  obtain ⟨-, slot, -⟩ := placed_at ordered placed present inside
  have order := sub_nonneg.mpr (previousRatio_le ordered inside)
  have ascending := Exact.pairwise_zero (ordered.shared inside shared)
  rw [splicedRatios,
    cut_replaced ordered placed present inside ascending (ends_getLastD inside _ _),
    ends_eq_map ordered inside shared, slot, Rect.cut,
    Rect.cutFrom_slab order (Exact.pairwise_zero shared), mul_zero, add_zero]

/-- The areas are handed the parts of the place, and nobody else is handed anything new. -/
theorem expandChild_eq_shared (inOrder : s.InOrder)
    (upToDate : ∀ child ∈ s.children, child.UpToDate)
    (present : s.children[index]? = some child) (some : areas ≠ [])
    (shared : Ordered (shares s.direction areas)) :
    s.expandChild index areas = .quiet { s with
      children := s.children.take index ++
        List.zipWith Area.resize areas (child.rect.cut s.direction (shares s.direction areas)) ++
        s.children.drop (index + 1)
      ratios := s.splicedRatios index areas } () := by
  have within : index < s.children.length := (List.getElem?_eq_some_iff.mp present).1
  have count : areas.length = (child.rect.cut s.direction (shares s.direction areas)).length := by
    rw [Rect.length_cut, length_shares]
  have still : ∀ area ∈ s.children.take index ++ s.children.drop (index + 1),
      area.resize area.rect = area := by
    intro area listed
    refine (upToDate area ?_).resize_eq
    rcases List.mem_append.mp listed with before | behind
    · exact List.mem_of_mem_take before
    · exact List.mem_of_mem_drop behind
  rw [s.expandChild_eq within some, ← splicedRatios, relayout, cut_shared inOrder present shared,
    Area.resizeEach_between count still]

theorem InOrder.extent_nonneg (inOrder : s.InOrder) (nonneg : 0 ≤ s.rect.extent s.direction)
    (present : s.children[index]? = some child) : 0 ≤ child.rect.extent s.direction := by
  have ordered := inOrder.ordered
  have inside := inside_of_present inOrder.placed present
  obtain ⟨-, slot, -⟩ := placed_at ordered inOrder.placed present inside
  rw [slot, Rect.extent_slab]
  exact mul_nonneg nonneg (sub_nonneg.mpr (previousRatio_le ordered inside))

/-- Areas that replace a child tile its place, in proportion to the extents they had, or evenly
where these add up to nothing. The other children keep their order, their ratios and their
rectangles. -/
theorem expandChild_shares_place (inOrder : s.InOrder)
    (upToDate : ∀ child ∈ s.children, child.UpToDate) (nonneg : 0 ≤ s.rect.extent s.direction)
    (present : s.children[index]? = some child) (some : areas ≠ [])
    (extents : ∀ area ∈ areas, 0 ≤ area.rect.extent s.direction) :
    let total := (areas.map fun area => area.rect.extent s.direction).sum
    let room := child.rect.extent s.direction
    ∃ (parts : List (Rect ℚ)) (ends : List ℚ),
      s.expandChild index areas = .quiet { s with
        children := s.children.take index ++ List.zipWith Area.resize areas parts ++
          s.children.drop (index + 1)
        ratios := s.ratios.take index ++ ends ++ s.ratios.drop (index + 1) } () ∧
      parts.length = areas.length ∧ ends.length = areas.length ∧
      child.rect.Tiled s.direction parts ∧
      (∀ p, parts.countP (p ∈ ·) = if p ∈ child.rect then 1 else 0) ∧
      (0 < total → parts.map (Rect.extent · s.direction) =
        areas.map fun area => area.rect.extent s.direction * (room / total)) ∧
      (¬ 0 < total → parts.map (Rect.extent · s.direction) =
        List.replicate areas.length (room / areas.length)) := by
  intro total room
  have shared := ordered_shares some extents
  have parted := extents_cut_shares some extents child.rect
  have tiled := Rect.tiled_cut (inOrder.extent_nonneg nonneg present) shared
  refine ⟨child.rect.cut s.direction (shares s.direction areas), s.ends index areas,
    expandChild_eq_shared inOrder upToDate present some shared, ?_, length_ends s index some,
    tiled, tiled.countP, ?_, ?_⟩
  · rw [Rect.length_cut, length_shares]
  · intro positive
    rw [parted, weights_of_pos positive, List.map_map]
    refine List.map_congr_left fun area _ => ?_
    exact mul_div_left_comm _ _ _
  · intro none
    rw [parted, weights_of_nonpos none, List.map_replicate, mul_one_div]

/-- Of two columns the second is replaced by three, one of them without a width, and the
first by three without a width. -/
theorem expandChild_shares_place_of_columns :
    columnPair.InOrder ∧ (∀ child ∈ columnPair.children, child.UpToDate) ∧
    0 ≤ columnPair.rect.extent .vertical ∧
    columnPair.children.map Area.rect = [⟨0, 0, 320, 480⟩, ⟨320, 0, 320, 480⟩] ∧
    (∃ parts, (⟨320, 0, 320, 480⟩ : Rect ℚ).Tiled .vertical parts ∧
      parts.map (Rect.extent · .vertical) = [240, 0, 80] ∧
      (columnPair.expandChild (1 : Nat) [vacant 30, vacant 0, vacant 10]).state.children =
        columnPair.children.take 1 ++
          List.zipWith Area.resize [vacant 30, vacant 0, vacant 10] parts) ∧
    (∃ parts, (⟨0, 0, 320, 480⟩ : Rect ℚ).Tiled .vertical parts ∧
      parts.map (Rect.extent · .vertical) = [320 / 3, 320 / 3, 320 / 3] ∧
      (columnPair.expandChild (0 : Nat) [vacant 0, vacant 0, vacant 0]).state.children =
        List.zipWith Area.resize [vacant 0, vacant 0, vacant 0] parts ++
          columnPair.children.drop 1) := by
  have inOrder : columnPair.InOrder := (Built.pair _ _ _ _ _ _).inOrder
  have upToDate : ∀ child ∈ columnPair.children, child.UpToDate :=
    Area.upToDate_of_containers (by decide +kernel)
  have nonneg : 0 ≤ columnPair.rect.extent .vertical := by decide +kernel
  have rects : columnPair.children.map Area.rect = [⟨0, 0, 320, 480⟩, ⟨320, 0, 320, 480⟩] := by
    decide +kernel
  obtain ⟨first, second, children⟩ : ∃ first second, columnPair.children = [first, second] :=
    ⟨_, _, rfl⟩
  have lie := rects
  rw [children, List.map_cons, List.map_cons, List.map_nil] at lie
  obtain ⟨left, rest⟩ := List.cons.inj lie
  obtain ⟨right, -⟩ := List.cons.inj rest
  obtain ⟨parts, ends, outcome, -, -, tiled, -, proportional, -⟩ :=
    @expandChild_shares_place columnPair 1 second [vacant 30, vacant 0, vacant 10] inOrder upToDate
      nonneg (by rw [children]; rfl) (List.cons_ne_nil _ _) (by decide +kernel)
  obtain ⟨others, marks, answer, -, -, filled, -, -, even⟩ :=
    @expandChild_shares_place columnPair 0 first [vacant 0, vacant 0, vacant 0] inOrder upToDate
      nonneg (by rw [children]; rfl) (List.cons_ne_nil _ _) (by decide +kernel)
  rw [right] at tiled proportional
  rw [left] at filled even
  refine ⟨inOrder, upToDate, nonneg, rects, ⟨parts, tiled, ?_, ?_⟩, others, filled, ?_, ?_⟩
  · exact (proportional (by decide +kernel)).trans (by decide +kernel)
  · rw [outcome, children]
    exact List.append_nil _
  · exact (even (by decide +kernel)).trans (by decide +kernel)
  · rw [answer]
    rfl

end DockLayout.Split
