import DockLayout.Proofs.Numbers.Exact
import DockLayout.Proofs.Plane.Slab

/-!
# Splicing in exact arithmetic

Without rounding the areas that take the place of a child keep their rectangles:
each ends at the same fraction of the place as before. Where the place has no
extent the weights are equal, and every area still gets the one rectangle that
fits.
-/

set_option autoImplicit false

namespace DockLayout

variable {previous : ℚ} {ratios : List ℚ}

/-! ## Shares -/

theorem Rect.spans_cons {ratio : ℚ} (order : previous ≤ ratio) :
    Rect.spans previous (ratio :: ratios) = (ratio - previous) :: Rect.spans ratio ratios := by
  rw [spans, greater_of_le (sub_nonneg.mpr order), greater_of_le order]

namespace Split

theorem sum_extents (extent : ℚ) (ascending : (previous :: ratios).Pairwise (· ≤ ·)) :
    ((Rect.spans previous ratios).map (extent * ·)).foldl (· + ·) (extent * previous) =
      extent * ratios.getLastD previous := by
  induction ratios generalizing previous with
  | nil => rfl
  | cons ratio rest ih =>
    obtain ⟨above, later⟩ := List.pairwise_cons.mp ascending
    have order := above ratio List.mem_cons_self
    have reached : extent * previous + extent * (ratio - previous) = extent * ratio := by ring
    rw [Rect.spans_cons order, List.map_cons, List.foldl_cons, reached, ih later,
      List.getLastD_cons]

/-- The fractions of the whole at which parts of the given weights end; `reached` is the
weight before them. -/
def fractions (whole reached : ℚ) : List ℚ → List ℚ
  | [] => []
  | weight :: rest => (reached + weight) / whole :: fractions whole (reached + weight) rest

/-- Nothing is cut off at the end of the place while no fraction is above one. -/
theorem shareOut_eq_map {start finish whole reached : ℚ} {weights : List ℚ}
    (order : start ≤ finish) (below : ∀ share ∈ fractions whole reached weights, share ≤ 1) :
    shareOut start (finish - start) finish whole reached weights =
      (fractions whole reached weights).map fun share => start + (finish - start) * share := by
  induction weights generalizing reached with
  | nil => rfl
  | cons weight rest ih =>
    have here := below ((reached + weight) / whole) List.mem_cons_self
    have others := ih fun share listed => below share (List.mem_cons_of_mem _ listed)
    have within : start + (reached + weight) / whole * (finish - start) ≤ finish := by
      have scaled := mul_le_mul_of_nonneg_right here (sub_nonneg.mpr order)
      linarith
    rw [shareOut, fractions, List.map_cons, others, lesser_of_le within, mul_comm]

theorem fractions_extents {extent : ℚ} (positive : 0 < extent)
    (ascending : (previous :: ratios).Pairwise (· ≤ ·)) :
    fractions extent (extent * previous) ((Rect.spans previous ratios).map (extent * ·)) =
      ratios := by
  induction ratios generalizing previous with
  | nil => rfl
  | cons ratio rest ih =>
    obtain ⟨above, later⟩ := List.pairwise_cons.mp ascending
    have below := above ratio List.mem_cons_self
    have reached : extent * previous + extent * (ratio - previous) = extent * ratio := by ring
    rw [Rect.spans_cons below, List.map_cons, fractions, reached, ih later,
      mul_div_cancel_left₀ ratio positive.ne']

def shares (direction : Direction) (areas : List (Area ℚ)) : List ℚ :=
  fractions (weights direction areas).2 0 (weights direction areas).1

/-! ## Places -/

section Places

variable {index : Nat}

theorem previousRatio_le (ordered : Ordered ratios) (inside : index < ratios.length) :
    previousRatio ratios index ≤ ratios[index] :=
  (ordered.previous inside).2.2

theorem previousRatio_eq (inside : index < ratios.length) :
    previousRatio ratios index = (ratios.take index).getLastD 0 := by
  cases index with
  | zero => rfl
  | succ index =>
    have within : index < ratios.length := Nat.lt_of_succ_lt inside
    rw [previousRatio, List.getD_eq_getElem ratios 0 within,
      List.take_succ_eq_append_getElem within, List.getLastD_concat]

theorem cut_at (r : Rect ℚ) (direction : Direction) (ordered : Ordered ratios)
    (inside : index < ratios.length) :
    r.cut direction ratios =
      r.cutFrom direction 0 (ratios.take index) ++
        r.slab direction (previousRatio ratios index)
            (ratios[index] - previousRatio ratios index) ::
          r.cutFrom direction ratios[index] (ratios.drop (index + 1)) := by
  have parts : ratios = ratios.take index ++ ratios[index] :: ratios.drop (index + 1) := by
    rw [← List.drop_eq_getElem_cons inside, List.take_append_drop]
  have ascending := Exact.pairwise_zero ordered
  rw [parts] at ascending
  have order := previousRatio_le ordered inside
  conv_lhs => rw [Rect.cut, parts]
  rw [Rect.cutFrom_append ascending, ← previousRatio_eq inside, Rect.cutFrom_cons order]

end Places

/-! ## Ends -/

theorem total_extents {inner : Split ℚ} (ordered : Ordered inner.ratios)
    (placed : inner.children.map Area.rect = inner.rect.cut inner.direction inner.ratios) :
    total (inner.children.map fun area => area.rect.extent inner.direction) =
      inner.rect.extent inner.direction := by
  have added := sum_extents (inner.rect.extent inner.direction) (Exact.pairwise_zero ordered)
  change total inner.extents = _
  rw [extents_of_placed placed]
  rwa [mul_zero, Exact.getLastD_of_ordered ordered, mul_one] at added

theorem shares_of_pos {inner : Split ℚ} (ordered : Ordered inner.ratios)
    (placed : inner.children.map Area.rect = inner.rect.cut inner.direction inner.ratios)
    (positive : 0 < inner.rect.extent inner.direction) :
    shares inner.direction inner.children = inner.ratios := by
  have weighed : weights inner.direction inner.children =
      ((Rect.spans 0 inner.ratios).map (inner.rect.extent inner.direction * ·),
        inner.rect.extent inner.direction) := by
    rw [weights, total_extents ordered placed, if_neg (not_le.mpr positive),
      ← extents_of_placed placed]
    rfl
  have same := fractions_extents positive (Exact.pairwise_zero ordered)
  rw [mul_zero] at same
  rw [shares, weighed, same]

theorem ends_eq_map {s : Split ℚ} {index : Nat} {areas : List (Area ℚ)}
    (ordered : Ordered s.ratios) (inside : index < s.ratios.length)
    (shared : Ordered (shares s.direction areas)) :
    s.ends index areas = (shares s.direction areas).map fun share =>
      previousRatio s.ratios index +
        (s.ratios[index] - previousRatio s.ratios index) * share := by
  obtain ⟨ascending, fraction, last⟩ := Exact.ordered_iff.mp shared
  have finish : s.ratios.getD index 0 = s.ratios[index] := List.getD_eq_getElem s.ratios 0 inside
  have placedAt := shareOut_eq_map (previousRatio_le ordered inside)
    fun share listed => (fraction share listed).2
  obtain ⟨front, whole⟩ : ∃ front, shares s.direction areas = front ++ [1] :=
    ⟨_, (List.dropLast_append_getLast? 1 last).symm⟩
  have final : previousRatio s.ratios index +
      (s.ratios[index] - previousRatio s.ratios index) * 1 = s.ratios[index] := by ring
  simp only [ends, finish]
  rw [placedAt, ← shares, whole, List.map_append, List.map_singleton, List.dropLast_concat, final]

theorem ends_getLastD {s : Split ℚ} {index : Nat} (inside : index < s.ratios.length)
    (areas : List (Area ℚ)) (start : ℚ) :
    (s.ends index areas).getLastD start = s.ratios[index] := by
  rw [ends, List.getLastD_concat, List.getD_eq_getElem s.ratios 0 inside]

section Ends

variable {s inner : Split ℚ} {index : Nat} (ordered : Ordered s.ratios)
  (inside : index < s.ratios.length) (innerOrdered : Ordered inner.ratios)
  (aligned : inner.direction = s.direction)
  (placed : inner.children.map Area.rect = inner.rect.cut inner.direction inner.ratios)

include ordered inside innerOrdered aligned placed

/-- As long as there is an extent, the spliced areas end at the fractions at which
they ended in their own split. -/
theorem ends_of_pos (positive : 0 < inner.rect.extent inner.direction) :
    s.ends index inner.children = inner.ratios.map fun ratio =>
      previousRatio s.ratios index +
        (s.ratios[index] - previousRatio s.ratios index) * ratio := by
  have shared := shares_of_pos innerOrdered placed positive
  rw [aligned] at shared
  rw [ends_eq_map ordered inside (by rwa [shared]), shared]

variable (slot : inner.rect = s.rect.slab s.direction (previousRatio s.ratios index)
  (s.ratios[index] - previousRatio s.ratios index))

include slot

/-- Without an extent the weights are equal. Wherever these put the ends, all parts are
the same. -/
theorem cutFrom_ends_of_flat (flat : inner.rect.extent inner.direction = 0) :
    s.rect.cutFrom s.direction (previousRatio s.ratios index) (s.ends index inner.children) =
      inner.children.map Area.rect := by
  have summable : inner.Summable := .of_modest innerOrdered (fun _ => trivial) placed
  obtain ⟨facts, ascending⟩ := ordered.ends inside innerOrdered (fun _ => summable) aligned placed
  have fromStart : (previousRatio s.ratios index :: s.ends index inner.children).Pairwise
      (· ≤ ·) :=
    List.pairwise_cons.mpr ⟨fun ratio listed => (facts ratio listed).2.1, ascending⟩
  have flatSlot : s.rect.extent s.direction *
      (s.ratios[index] - previousRatio s.ratios index) = 0 := by
    rw [aligned, slot, Rect.extent_slab] at flat
    exact flat
  have flatInner : inner.rect.extent inner.direction * (1 - 0) = 0 := by
    rw [flat, zero_mul]
  have start : inner.rect.slab inner.direction 0 0 =
      s.rect.slab s.direction (previousRatio s.ratios index) 0 := by
    rw [aligned, slot, Rect.slab_slab, mul_zero, add_zero]
  have count := congrArg List.length placed
  rw [List.length_map, Rect.length_cut] at count
  have some : inner.children ≠ [] := by
    rw [← List.length_pos_iff, count, List.length_pos_iff]
    exact innerOrdered.ne_nil
  rw [placed, Rect.cut, Rect.cutFrom_flat flatSlot fromStart fun ratio listed =>
      (facts ratio listed).2.2, length_ends s index some, count,
    Rect.cutFrom_flat flatInner (Exact.pairwise_zero innerOrdered) fun ratio listed =>
      (innerOrdered.fraction ratio listed).le_one, start]

theorem cutFrom_ends (nonneg : 0 ≤ inner.rect.extent inner.direction) :
    s.rect.cutFrom s.direction (previousRatio s.ratios index) (s.ends index inner.children) =
      inner.children.map Area.rect := by
  rcases nonneg.lt_or_eq with positive | flat
  · have order := sub_nonneg.mpr (previousRatio_le ordered inside)
    rw [ends_of_pos ordered inside innerOrdered aligned placed positive, placed, aligned, Rect.cut,
      slot, Rect.cutFrom_slab order (Exact.pairwise_zero innerOrdered), mul_zero, add_zero]
  · exact cutFrom_ends_of_flat ordered inside innerOrdered aligned placed slot flat.symm

end Ends

/-! ## Splices -/

section Replaced

variable {s : Split ℚ} {index : Nat} {child : Area ℚ} (ordered : Ordered s.ratios)
  (placed : s.children.map Area.rect = s.rect.cut s.direction s.ratios)
  (present : s.children[index]? = some child)

include placed present

theorem inside_of_present : index < s.ratios.length := by
  have count := congrArg List.length placed
  rw [List.length_map, Rect.length_cut] at count
  exact count ▸ (List.getElem?_eq_some_iff.mp present).1

include ordered

theorem placed_at (inside : index < s.ratios.length) :
    (s.children.take index).map Area.rect =
        s.rect.cutFrom s.direction 0 (s.ratios.take index) ∧
      child.rect = s.rect.slab s.direction (previousRatio s.ratios index)
        (s.ratios[index] - previousRatio s.ratios index) ∧
      (s.children.drop (index + 1)).map Area.rect =
        s.rect.cutFrom s.direction s.ratios[index] (s.ratios.drop (index + 1)) := by
  obtain ⟨within, same⟩ := List.getElem?_eq_some_iff.mp present
  have parts : s.children = s.children.take index ++ child :: s.children.drop (index + 1) := by
    rw [← same, ← List.drop_eq_getElem_cons within, List.take_append_drop]
  have old := cut_at s.rect s.direction ordered inside
  rw [← placed, parts, List.map_append, List.map_cons] at old
  have lengths : ((s.children.take index).map Area.rect).length =
      (s.rect.cutFrom s.direction 0 (s.ratios.take index)).length := by
    rw [List.length_map, Rect.length_cutFrom, List.length_take_of_le within.le,
      List.length_take_of_le inside.le]
  obtain ⟨fronts, rest⟩ := List.append_inj old lengths
  obtain ⟨slot, backs⟩ := List.cons.inj rest
  exact ⟨fronts, slot, backs⟩

/-- Other ratios within the place of a child leave the other children where they are. -/
theorem cut_replaced (inside : index < s.ratios.length) {new : List ℚ}
    (ascending : (0 :: (s.ratios.take index ++ new ++ s.ratios.drop (index + 1))).Pairwise
      (· ≤ ·))
    (final : new.getLastD (previousRatio s.ratios index) = s.ratios[index]) :
    s.rect.cut s.direction (s.ratios.take index ++ new ++ s.ratios.drop (index + 1)) =
      (s.children.take index).map Area.rect ++
        s.rect.cutFrom s.direction (previousRatio s.ratios index) new ++
        (s.children.drop (index + 1)).map Area.rect := by
  obtain ⟨fronts, -, backs⟩ := placed_at ordered placed present inside
  rw [List.append_assoc] at ascending
  have later := Rect.pairwise_getLastD ascending
  rw [← previousRatio_eq inside] at later
  rw [Rect.cut, List.append_assoc, Rect.cutFrom_append ascending, ← previousRatio_eq inside,
    Rect.cutFrom_append later, final, fronts, backs, List.append_assoc]

end Replaced

/-- The spliced areas and their new siblings lie where the new ratios put them. -/
theorem cut_splicedRatios {s : Split ℚ} {index : Nat} {child : Area ℚ} (inner : Split ℚ)
    (present : s.children[index]? = some child) (ordered : Ordered s.ratios)
    (placed : s.children.map Area.rect = s.rect.cut s.direction s.ratios)
    (innerOrdered : Ordered inner.ratios) (aligned : inner.direction = s.direction)
    (innerPlaced : inner.children.map Area.rect = inner.rect.cut inner.direction inner.ratios)
    (place : inner.rect = child.rect) (nonneg : 0 ≤ inner.rect.extent inner.direction) :
    s.rect.cut s.direction (s.splicedRatios index inner.children) =
      (s.children.take index ++ inner.children ++ s.children.drop (index + 1)).map Area.rect := by
  have inside := inside_of_present placed present
  obtain ⟨-, slot, -⟩ := placed_at ordered placed present inside
  have summable : inner.Summable := .of_modest innerOrdered (fun _ => trivial) innerPlaced
  have ascending := Exact.pairwise_zero
    (ordered.spliced inside innerOrdered (fun _ => summable) aligned innerPlaced)
  rw [splicedRatios,
    cut_replaced ordered placed present inside ascending (ends_getLastD inside _ _),
    cutFrom_ends ordered inside innerOrdered aligned innerPlaced (place.trans slot) nonneg,
    List.map_append, List.map_append]

end Split

end DockLayout
