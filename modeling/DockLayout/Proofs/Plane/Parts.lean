import Mathlib.Algebra.Order.Group.MinMax
import Mathlib.Order.Bounds.Basic
import DockLayout.Proofs.Plane.Slab

/-!
# Parts for any ratios

The ratios at which a rectangle is cut need not be in order. A part ends where the furthest
of the ratios so far is, and a ratio that lies behind an earlier one makes an empty part. So
a cut at any ratios is one at their peaks, which ascend. No two parts share a point, and
together they fill the rectangle as far as the furthest ratio reaches.
-/

set_option autoImplicit false

namespace DockLayout.Rect

/-! ## Reach -/

/-- The furthest of a position and some ratios. -/
def reach (previous : ℚ) (ratios : List ℚ) : ℚ := ratios.foldl max previous

theorem reach_cons (previous ratio : ℚ) (rest : List ℚ) :
    reach previous (ratio :: rest) = reach (max previous ratio) rest := rfl

theorem reach_concat (previous : ℚ) (ratios : List ℚ) (ratio : ℚ) :
    reach previous (ratios ++ [ratio]) = max (reach previous ratios) ratio := by
  simp [reach]

theorem isGreatest_reach (previous : ℚ) (ratios : List ℚ) :
    IsGreatest {ratio | ratio ∈ previous :: ratios} (reach previous ratios) := by
  induction ratios generalizing previous with
  | nil =>
    refine ⟨List.mem_singleton_self previous, ?_⟩
    intro ratio listed
    exact (List.mem_singleton.mp listed).le
  | cons ratio rest ih =>
    obtain ⟨attained, bound⟩ := ih (max previous ratio)
    rw [reach_cons]
    constructor
    · rcases List.mem_cons.mp attained with furthest | later
      · rw [furthest]
        rcases max_choice previous ratio with same | same <;> simp [same]
      · exact List.mem_cons_of_mem _ (List.mem_cons_of_mem _ later)
    · have furthest := bound List.mem_cons_self
      intro other listed
      rcases List.mem_cons.mp listed with rfl | after
      · exact (le_max_left _ _).trans furthest
      rcases List.mem_cons.mp after with rfl | later
      · exact (le_max_right _ _).trans furthest
      · exact bound (List.mem_cons_of_mem _ later)

def peaks (previous : ℚ) : List ℚ → List ℚ
  | [] => []
  | ratio :: rest => max previous ratio :: peaks (max previous ratio) rest

theorem peaks_ascending (previous : ℚ) (ratios : List ℚ) :
    (previous :: peaks previous ratios).Pairwise (· ≤ ·) := by
  induction ratios generalizing previous with
  | nil => exact List.pairwise_singleton _ _
  | cons ratio rest ih =>
    have later := ih (max previous ratio)
    refine List.pairwise_cons.mpr ⟨?_, later⟩
    intro peak listed
    rcases List.mem_cons.mp listed with rfl | after
    · exact le_max_left _ _
    · exact (le_max_left _ _).trans ((List.pairwise_cons.mp later).1 peak after)

theorem peaks_getLastD (previous : ℚ) (ratios : List ℚ) :
    (peaks previous ratios).getLastD previous = reach previous ratios := by
  induction ratios generalizing previous with
  | nil => rfl
  | cons ratio rest ih => rw [peaks, List.getLastD_cons, ih, reach_cons]

/-! ## Cuts -/

variable {r : Rect ℚ} {direction : Direction} {previous : ℚ} {ratios : List ℚ} {p : Point ℚ}

/-- The first part ends at its ratio unless that lies behind the position. -/
theorem cutFrom_cons_max (ratio : ℚ) (rest : List ℚ) :
    r.cutFrom direction previous (ratio :: rest) =
      r.slab direction previous (max previous ratio - previous) ::
        r.cutFrom direction (max previous ratio) rest := by
  have span : max 0 (ratio - previous) = max previous ratio - previous := by
    rw [← sub_self previous, max_sub_sub_right]
  rw [cutFrom, greater_eq_max, greater_eq_max, span]

theorem cutFrom_peaks (previous : ℚ) (ratios : List ℚ) :
    r.cutFrom direction previous (peaks previous ratios) =
      r.cutFrom direction previous ratios := by
  induction ratios generalizing previous with
  | nil => rfl
  | cons ratio rest ih =>
    rw [peaks, cutFrom_cons (le_max_left previous ratio), ih, cutFrom_cons_max]

theorem getElem?_cutFrom {index : Nat} (inside : index < ratios.length) :
    (r.cutFrom direction previous ratios)[index]? =
      some (r.slab direction (reach previous (ratios.take index))
        (reach previous (ratios.take (index + 1)) - reach previous (ratios.take index))) := by
  induction ratios generalizing previous index with
  | nil => simp at inside
  | cons ratio rest ih =>
    rw [cutFrom_cons_max]
    cases index with
    | zero => rfl
    | succ index => exact ih (Nat.lt_of_succ_lt_succ inside)

theorem extent_nonneg_of_cutFrom (nonneg : 0 ≤ r.extent direction) {part : Rect ℚ}
    (listed : part ∈ r.cutFrom direction previous ratios) : 0 ≤ part.extent direction := by
  induction ratios generalizing previous with
  | nil => cases listed
  | cons ratio rest ih =>
    rw [cutFrom_cons_max] at listed
    rcases List.mem_cons.mp listed with rfl | later
    · rw [extent_slab]
      exact mul_nonneg nonneg (sub_nonneg.mpr (le_max_left _ _))
    · exact ih later

/-! ## Points -/

def Apart (r s : Rect ℚ) : Prop := ∀ p ∈ r, p ∉ s

theorem exists_mem_cutFrom_iff :
    (∃ part ∈ r.cutFrom direction previous ratios, p ∈ part) ↔
      p ∈ r.slab direction previous (reach previous ratios - previous) := by
  have count : (r.cutFrom direction previous ratios).countP (p ∈ ·) =
      if p ∈ r.slab direction previous (reach previous ratios - previous) then 1 else 0 := by
    rw [← cutFrom_peaks, countP_cutFrom (peaks_ascending previous ratios), peaks_getLastD]
  have some : (∃ part ∈ r.cutFrom direction previous ratios, p ∈ part) ↔
      0 < (r.cutFrom direction previous ratios).countP (p ∈ ·) := by
    simp only [List.countP_pos_iff, decide_eq_true_eq]
  rw [some, count]
  split <;> simp_all

theorem pairwise_apart_cutFrom (previous : ℚ) (ratios : List ℚ) :
    (r.cutFrom direction previous ratios).Pairwise Apart := by
  induction ratios generalizing previous with
  | nil => exact List.Pairwise.nil
  | cons ratio rest ih =>
    rw [cutFrom_cons_max]
    refine List.pairwise_cons.mpr ⟨?_, ih (max previous ratio)⟩
    intro part listed p here there
    exact not_mem_slab_of_mem here (exists_mem_cutFrom_iff.mp ⟨part, listed, there⟩)

def Follows (direction : Direction) (first second : Rect ℚ) : Prop :=
  second.origin direction = first.origin direction + first.extent direction

theorem isChain_cutFrom (previous : ℚ) (ratios : List ℚ) :
    (r.cutFrom direction previous ratios).IsChain (Follows direction) := by
  induction ratios generalizing previous with
  | nil => exact .nil
  | cons ratio rest ih =>
    have later := ih (max previous ratio)
    cases rest with
    | nil => exact .singleton _
    | cons next others =>
      rw [cutFrom_cons_max] at later
      rw [cutFrom_cons_max, cutFrom_cons_max]
      refine List.isChain_cons_cons.mpr ⟨?_, later⟩
      rw [Follows, origin_slab, origin_slab, extent_slab]
      ring

/-! ## Parts of a cut -/

/-- A rectangle is cut into one part for each ratio, in whatever order the ratios are. A part
reaches across and lies between the furthest of zero and the ratios before its own and the
furthest including its own, so each begins where the one before it ends. No point lies in
two of them, and together they hold the points as far as the furthest ratio. -/
theorem cut_fills_to_furthest_ratio (r : Rect ℚ) (direction : Direction) (ratios : List ℚ) :
    (∀ count, IsGreatest {ratio | ratio ∈ 0 :: ratios.take count}
      (reach 0 (ratios.take count))) ∧
    (r.cut direction ratios).length = ratios.length ∧
    (∀ index part, (r.cut direction ratios)[index]? = some part →
      part.origin direction =
        r.origin direction + r.extent direction * reach 0 (ratios.take index) ∧
      part.origin direction + part.extent direction =
        r.origin direction + r.extent direction * reach 0 (ratios.take (index + 1)) ∧
      part.origin direction.flip = r.origin direction.flip ∧
      part.extent direction.flip = r.extent direction.flip) ∧
    (r.cut direction ratios).IsChain (Follows direction) ∧
    (r.cut direction ratios).Pairwise Apart ∧
    (0 ≤ r.extent direction → ∀ part ∈ r.cut direction ratios, 0 ≤ part.extent direction) ∧
    ∀ p, (∃ part ∈ r.cut direction ratios, p ∈ part) ↔
      p ∈ r.slab direction 0 (reach 0 ratios) := by
  refine ⟨fun count => isGreatest_reach 0 (ratios.take count), r.length_cut direction ratios, ?_,
    isChain_cutFrom 0 ratios, pairwise_apart_cutFrom 0 ratios, ?_, ?_⟩
  · intro index part listed
    have inside : index < ratios.length := by
      have bound := (List.getElem?_eq_some_iff.mp listed).1
      rwa [length_cut] at bound
    rw [cut, getElem?_cutFrom inside] at listed
    obtain rfl := Option.some.inj listed
    refine ⟨origin_slab .., ?_, origin_slab_flip .., extent_slab_flip ..⟩
    rw [origin_slab, extent_slab]
    ring
  · intro nonneg part listed
    exact extent_nonneg_of_cutFrom nonneg listed
  · intro p
    rw [cut, exists_mem_cutFrom_iff, sub_zero]

/-- Two ratios that lie behind the first one, and a last one beyond the far edge. -/
theorem cut_fills_to_furthest_ratio_of_crossing :
    let r : Rect ℚ := ⟨10, 20, 200, 100⟩
    let parts := r.cut .vertical [3 / 5, -1 / 2, 2 / 5, 3 / 2]
    0 ≤ r.extent .vertical ∧
    parts = [⟨10, 20, 120, 100⟩, ⟨130, 20, 0, 100⟩, ⟨130, 20, 0, 100⟩, ⟨130, 20, 180, 100⟩] ∧
    parts.IsChain (Follows .vertical) ∧ parts.Pairwise Apart ∧
    (∀ part ∈ parts, 0 ≤ part.extent .vertical) ∧
    (∃ part ∈ parts, ⟨300, 50⟩ ∈ part) ∧ ¬ ∃ part ∈ parts, ⟨310, 50⟩ ∈ part := by
  intro r parts
  have nonneg : 0 ≤ r.extent .vertical := by decide +kernel
  obtain ⟨-, -, -, chain, apart, sizes, filled⟩ :=
    cut_fills_to_furthest_ratio r .vertical [3 / 5, -1 / 2, 2 / 5, 3 / 2]
  refine ⟨nonneg, by decide +kernel, chain, apart, sizes nonneg, ?_, ?_⟩
  · exact (filled ⟨300, 50⟩).mpr (by decide +kernel)
  · intro found
    have inside := (filled ⟨310, 50⟩).mp found
    revert inside
    decide +kernel

end DockLayout.Rect
