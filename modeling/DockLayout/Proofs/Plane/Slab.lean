import Mathlib.Algebra.Order.Field.Rat
import Mathlib.Data.List.Basic
import Mathlib.Tactic.Linarith
import Mathlib.Tactic.Ring
import DockLayout.Plane.Cut

/-!
# Slabs in exact arithmetic

A slab is a part of a rectangle between two fractions of its extent. Without
rounding, two slabs that meet are together one slab and share no point, and a
slab of a slab is a slab. So cutting a rectangle at ordered ratios puts every
point of it into exactly one part, and leaving out a boundary puts the hull of
two parts in their place.
-/

set_option autoImplicit false

namespace DockLayout

theorem lesser_of_le {first second : ℚ} (order : first ≤ second) :
    lesser first second = first := by
  rw [lesser, if_neg (not_lt.mpr order)]

theorem greater_of_le {first second : ℚ} (order : first ≤ second) :
    greater first second = second := by
  rw [greater]
  split
  · rfl
  · linarith

theorem lesser_eq_min (first second : ℚ) : lesser first second = min first second := by
  rcases le_total first second with order | order
  · rw [lesser_of_le order, min_eq_left order]
  · rw [min_eq_right order, lesser]
    split
    · rfl
    · linarith

theorem greater_eq_max (first second : ℚ) : greater first second = max first second := by
  rcases le_total first second with order | order
  · rw [greater_of_le order, max_eq_right order]
  · rw [max_eq_left order, greater, if_neg (not_lt.mpr order)]

theorem clamp_eq (value low high : ℚ) : clamp value low high = min (max value low) high := by
  rw [clamp, lesser_eq_min, greater_eq_max]

namespace Rect

/-! ## Axes -/

section Axes

variable {K : Type}

def origin (r : Rect K) : Direction → K
  | .horizontal => r.y
  | .vertical => r.x

theorem ext_along {r s : Rect K} (direction : Direction)
    (origin : r.origin direction = s.origin direction)
    (extent : r.extent direction = s.extent direction)
    (crossOrigin : r.origin direction.flip = s.origin direction.flip)
    (crossExtent : r.extent direction.flip = s.extent direction.flip) : r = s := by
  obtain ⟨x, y, width, height⟩ := r
  obtain ⟨otherX, otherY, otherWidth, otherHeight⟩ := s
  cases direction with
  | horizontal =>
    simp only [Rect.origin, Rect.extent, Direction.flip] at origin extent crossOrigin crossExtent
    rw [origin, extent, crossOrigin, crossExtent]
  | vertical =>
    simp only [Rect.origin, Rect.extent, Direction.flip] at origin extent crossOrigin crossExtent
    rw [origin, extent, crossOrigin, crossExtent]

variable [Scalar K]

theorem mem_iff_along {r : Rect K} {p : Point K} (direction : Direction) :
    p ∈ r ↔
      (r.origin direction ≤ p.along direction ∧
        p.along direction < r.origin direction + r.extent direction) ∧
      (r.origin direction.flip ≤ p.along direction.flip ∧
        p.along direction.flip < r.origin direction.flip + r.extent direction.flip) := by
  rw [mem_iff]
  cases direction with
  | horizontal => exact and_comm
  | vertical => exact Iff.rfl

variable (r : Rect K) (direction : Direction) (start span : K)

@[simp] theorem origin_slab :
    (r.slab direction start span).origin direction =
      r.origin direction + r.extent direction * start := by
  cases direction <;> rfl

@[simp] theorem extent_slab :
    (r.slab direction start span).extent direction = r.extent direction * span := by
  cases direction <;> rfl

@[simp] theorem origin_slab_flip :
    (r.slab direction start span).origin direction.flip = r.origin direction.flip := by
  cases direction <;> rfl

@[simp] theorem extent_slab_flip :
    (r.slab direction start span).extent direction.flip = r.extent direction.flip := by
  cases direction <;> rfl

end Axes

/-! ## Slabs -/

variable (r : Rect ℚ) (direction : Direction)

theorem slab_whole : r.slab direction 0 1 = r := by
  apply ext_along direction
  · rw [origin_slab, mul_zero, add_zero]
  · rw [extent_slab, mul_one]
  · rw [origin_slab_flip]
  · rw [extent_slab_flip]

theorem slab_congr {start span otherStart otherSpan : ℚ}
    (starts : r.extent direction * start = r.extent direction * otherStart)
    (extents : r.extent direction * span = r.extent direction * otherSpan) :
    r.slab direction start span = r.slab direction otherStart otherSpan := by
  apply ext_along direction
  · rw [origin_slab, origin_slab, starts]
  · rw [extent_slab, extent_slab, extents]
  · rw [origin_slab_flip, origin_slab_flip]
  · rw [extent_slab_flip, extent_slab_flip]

theorem slab_slab (start span innerStart innerSpan : ℚ) :
    (r.slab direction start span).slab direction innerStart innerSpan =
      r.slab direction (start + span * innerStart) (span * innerSpan) := by
  apply ext_along direction
  · rw [origin_slab, origin_slab, extent_slab, origin_slab]
    ring
  · rw [extent_slab, extent_slab, extent_slab, mul_assoc]
  · rw [origin_slab_flip, origin_slab_flip, origin_slab_flip]
  · rw [extent_slab_flip, extent_slab_flip, extent_slab_flip]

variable {r direction} {p : Point ℚ} {start middle finish : ℚ}

theorem mem_slab :
    p ∈ r.slab direction start (finish - start) ↔
      (r.origin direction + r.extent direction * start ≤ p.along direction ∧
        p.along direction < r.origin direction + r.extent direction * finish) ∧
      (r.origin direction.flip ≤ p.along direction.flip ∧
        p.along direction.flip < r.origin direction.flip + r.extent direction.flip) := by
  have reach : r.origin direction + r.extent direction * start +
      r.extent direction * (finish - start) = r.origin direction + r.extent direction * finish := by
    ring
  rw [mem_iff_along direction, origin_slab, extent_slab, origin_slab_flip, extent_slab_flip, reach]

theorem not_mem_slab_self : p ∉ r.slab direction start (start - start) := by
  rw [mem_slab]
  rintro ⟨⟨above, below⟩, -⟩
  exact absurd below (not_lt.mpr above)

theorem extent_pos_of_mem_slab (order : start ≤ finish)
    (inside : p ∈ r.slab direction start (finish - start)) : 0 < r.extent direction := by
  rw [mem_slab] at inside
  obtain ⟨⟨above, below⟩, -⟩ := inside
  by_contra negative
  have shrinks := mul_le_mul_of_nonpos_left order (not_lt.mp negative)
  linarith

theorem mem_slab_or (before : start ≤ middle) (after : middle ≤ finish) :
    p ∈ r.slab direction start (finish - start) ↔
      p ∈ r.slab direction start (middle - start) ∨
        p ∈ r.slab direction middle (finish - middle) := by
  constructor
  · intro inside
    rw [mem_slab] at inside
    rw [mem_slab, mem_slab]
    obtain ⟨⟨above, below⟩, across⟩ := inside
    by_cases early : p.along direction < r.origin direction + r.extent direction * middle
    · exact .inl ⟨⟨above, early⟩, across⟩
    · exact .inr ⟨⟨not_lt.mp early, below⟩, across⟩
  · rintro (inside | inside)
    · have positive := extent_pos_of_mem_slab before inside
      have further := mul_le_mul_of_nonneg_left after positive.le
      rw [mem_slab] at inside ⊢
      obtain ⟨⟨above, below⟩, across⟩ := inside
      exact ⟨⟨above, by linarith⟩, across⟩
    · have positive := extent_pos_of_mem_slab after inside
      have nearer := mul_le_mul_of_nonneg_left before positive.le
      rw [mem_slab] at inside ⊢
      obtain ⟨⟨above, below⟩, across⟩ := inside
      exact ⟨⟨by linarith, below⟩, across⟩

theorem not_mem_slab_of_mem (inside : p ∈ r.slab direction start (middle - start)) :
    p ∉ r.slab direction middle (finish - middle) := by
  rw [mem_slab] at inside ⊢
  obtain ⟨⟨-, below⟩, -⟩ := inside
  rintro ⟨⟨above, -⟩, -⟩
  exact absurd below (not_lt.mpr above)

theorem tiled (r : Rect ℚ) (direction : Direction) {middle : ℚ} (nonneg : 0 ≤ middle)
    (atMost : middle ≤ 1) :
    (∀ p, p ∈ r ↔ p ∈ r.slab direction 0 middle ∨ p ∈ r.slab direction middle (1 - middle)) ∧
      ∀ p ∈ r.slab direction 0 middle, p ∉ r.slab direction middle (1 - middle) := by
  have whole : r.slab direction 0 (1 - 0) = r := by rw [sub_zero, slab_whole]
  have first : r.slab direction 0 (middle - 0) = r.slab direction 0 middle := by rw [sub_zero]
  rw [← first]
  refine ⟨fun p => ?_, fun p inside => not_mem_slab_of_mem inside⟩
  conv_lhs => rw [← whole]
  exact mem_slab_or nonneg atMost

/-! ## Cuts at ordered ratios -/

variable {previous ratio : ℚ} {ratios : List ℚ}

theorem cutFrom_cons (order : previous ≤ ratio) :
    r.cutFrom direction previous (ratio :: ratios) =
      r.slab direction previous (ratio - previous) :: r.cutFrom direction ratio ratios := by
  rw [cutFrom, greater_of_le (sub_nonneg.mpr order), greater_of_le order]

theorem cutFrom_append {first second : List ℚ}
    (ascending : (previous :: (first ++ second)).Pairwise (· ≤ ·)) :
    r.cutFrom direction previous (first ++ second) =
      r.cutFrom direction previous first ++
        r.cutFrom direction (first.getLastD previous) second := by
  induction first generalizing previous with
  | nil => rfl
  | cons ratio rest ih =>
    obtain ⟨above, later⟩ := List.pairwise_cons.mp ascending
    have order := above ratio List.mem_cons_self
    rw [List.cons_append, cutFrom_cons order, cutFrom_cons order, ih later, List.getLastD_cons,
      List.cons_append]

/-- A slab is cut where the rectangle is cut at the same fractions of the slab. -/
theorem cutFrom_slab {span : ℚ} (nonneg : 0 ≤ span)
    (ascending : (previous :: ratios).Pairwise (· ≤ ·)) :
    (r.slab direction start span).cutFrom direction previous ratios =
      r.cutFrom direction (start + span * previous)
        (ratios.map fun ratio => start + span * ratio) := by
  induction ratios generalizing previous with
  | nil => rfl
  | cons ratio rest ih =>
    obtain ⟨above, later⟩ := List.pairwise_cons.mp ascending
    have order := above ratio List.mem_cons_self
    have moved : start + span * previous ≤ start + span * ratio := by
      have scaled := mul_le_mul_of_nonneg_left order nonneg
      linarith
    have part : span * (ratio - previous) = start + span * ratio - (start + span * previous) := by
      ring
    rw [List.map_cons, cutFrom_cons order, cutFrom_cons moved, ih later, slab_slab, part]

/-- Where there is no room, all parts are the same. -/
theorem cutFrom_flat (flat : r.extent direction * (finish - previous) = 0)
    (ascending : (previous :: ratios).Pairwise (· ≤ ·))
    (within : ∀ ratio ∈ ratios, ratio ≤ finish) :
    r.cutFrom direction previous ratios =
      List.replicate ratios.length (r.slab direction previous 0) := by
  induction ratios generalizing previous with
  | nil => rfl
  | cons ratio rest ih =>
    obtain ⟨above, later⟩ := List.pairwise_cons.mp ascending
    have order := above ratio List.mem_cons_self
    have bound := within ratio List.mem_cons_self
    have others : ∀ other ∈ rest, other ≤ finish :=
      fun other listed => within other (List.mem_cons_of_mem ratio listed)
    -- either the rectangle has no extent or there is only one place for an end
    have none : r.extent direction * (ratio - previous) = 0 := by
      rcases mul_eq_zero.mp flat with thin | still
      · rw [thin, zero_mul]
      · obtain rfl : ratio = previous := by linarith
        rw [sub_self, mul_zero]
    have here : r.slab direction previous (ratio - previous) = r.slab direction previous 0 :=
      slab_congr r direction rfl (by rw [none, mul_zero])
    have start : r.slab direction ratio 0 = r.slab direction previous 0 :=
      slab_congr r direction (by linarith) rfl
    rw [cutFrom_cons order, here, ih (by linarith) later others, start, List.length_cons,
      List.replicate_succ]

theorem le_getLastD (ascending : (previous :: ratios).Pairwise (· ≤ ·)) :
    previous ≤ ratios.getLastD previous := by
  rw [List.getLastD_eq_getLast?]
  cases present : ratios.getLast? with
  | none => exact le_refl previous
  | some last =>
    exact (List.pairwise_cons.mp ascending).1 last (List.mem_of_getLast? present)

theorem pairwise_getLastD {first second : List ℚ}
    (ascending : (previous :: (first ++ second)).Pairwise (· ≤ ·)) :
    (first.getLastD previous :: second).Pairwise (· ≤ ·) := by
  induction first generalizing previous with
  | nil => exact ascending
  | cons ratio rest ih =>
    rw [List.getLastD_cons]
    exact ih (List.pairwise_cons.mp ascending).2

theorem countP_cutFrom (ascending : (previous :: ratios).Pairwise (· ≤ ·)) (p : Point ℚ) :
    (r.cutFrom direction previous ratios).countP (p ∈ ·) =
      if p ∈ r.slab direction previous (ratios.getLastD previous - previous) then 1 else 0 := by
  induction ratios generalizing previous with
  | nil =>
    rw [List.getLastD_nil, if_neg not_mem_slab_self]
    rfl
  | cons ratio rest ih =>
    obtain ⟨above, later⟩ := List.pairwise_cons.mp ascending
    have order := above ratio List.mem_cons_self
    have parts : p ∈ r.slab direction previous (rest.getLastD ratio - previous) ↔
        p ∈ r.slab direction previous (ratio - previous) ∨
          p ∈ r.slab direction ratio (rest.getLastD ratio - ratio) :=
      mem_slab_or order (le_getLastD later)
    rw [cutFrom_cons order, List.countP_cons, ih later, List.getLastD_cons]
    by_cases here : p ∈ r.slab direction previous (ratio - previous)
    · have elsewhere : p ∉ r.slab direction ratio (rest.getLastD ratio - ratio) :=
        not_mem_slab_of_mem here
      rw [if_neg elsewhere, if_pos (decide_eq_true here), if_pos (parts.mpr (.inl here))]
    · simp only [parts, here, false_or, decide_false, Bool.false_eq_true, if_false, add_zero]

/-! ## Extents that are not negative -/

def Nonneg (r : Rect ℚ) : Prop := ∀ axis, 0 ≤ r.extent axis

theorem Nonneg.of_cutFrom {part : Rect ℚ} (nonneg : r.Nonneg)
    (ascending : (previous :: ratios).Pairwise (· ≤ ·))
    (listed : part ∈ r.cutFrom direction previous ratios) : part.Nonneg := by
  induction ratios generalizing previous with
  | nil => cases listed
  | cons ratio rest ih =>
    obtain ⟨above, later⟩ := List.pairwise_cons.mp ascending
    have order := above ratio List.mem_cons_self
    rw [cutFrom_cons order] at listed
    rcases List.mem_cons.mp listed with rfl | other
    · have along : 0 ≤ (r.slab direction previous (ratio - previous)).extent direction := by
        rw [extent_slab]
        exact mul_nonneg (nonneg direction) (sub_nonneg.mpr order)
      have across : 0 ≤ (r.slab direction previous (ratio - previous)).extent direction.flip := by
        rw [extent_slab_flip]
        exact nonneg direction.flip
      intro axis
      cases direction <;> cases axis
      · exact along
      · exact across
      · exact across
      · exact along
    · exact ih later other

/-! ## Hulls -/

def hull (r s : Rect ℚ) : Rect ℚ :=
  ⟨min r.x s.x, min r.y s.y,
    max (r.x + r.width) (s.x + s.width) - min r.x s.x,
    max (r.y + r.height) (s.y + s.height) - min r.y s.y⟩

theorem hull_comm (r s : Rect ℚ) : r.hull s = s.hull r := by
  rw [hull, hull, min_comm r.x, min_comm r.y, max_comm (r.x + r.width),
    max_comm (r.y + r.height)]

theorem origin_hull (r s : Rect ℚ) (direction : Direction) :
    (r.hull s).origin direction = min (r.origin direction) (s.origin direction) := by
  cases direction <;> rfl

theorem extent_hull (r s : Rect ℚ) (direction : Direction) :
    (r.hull s).extent direction =
      max (r.origin direction + r.extent direction) (s.origin direction + s.extent direction) -
        min (r.origin direction) (s.origin direction) := by
  cases direction <;> rfl

/-- Two slabs that meet fill their hull. -/
theorem hull_slab (nonneg : 0 ≤ r.extent direction) (before : start ≤ middle)
    (after : middle ≤ finish) :
    (r.slab direction start (middle - start)).hull (r.slab direction middle (finish - middle)) =
      r.slab direction start (finish - start) := by
  have early := mul_le_mul_of_nonneg_left before nonneg
  have late := mul_le_mul_of_nonneg_left after nonneg
  apply ext_along direction
  · rw [origin_hull, origin_slab, origin_slab, origin_slab]
    exact min_eq_left (by linarith)
  · rw [extent_hull, origin_slab, origin_slab, extent_slab, extent_slab, extent_slab,
      min_eq_left (by linarith), max_eq_right (by linarith)]
    ring
  · rw [origin_hull, origin_slab_flip, origin_slab_flip, origin_slab_flip, min_self]
  · rw [extent_hull, origin_slab_flip, origin_slab_flip, extent_slab_flip, extent_slab_flip,
      extent_slab_flip, min_self, max_self, add_sub_cancel_left]

theorem cut_adjacent {before after : List ℚ} {first second : ℚ}
    (ascending : (0 :: (before ++ first :: second :: after)).Pairwise (· ≤ ·)) :
    r.cut direction (before ++ first :: second :: after) =
      r.cutFrom direction 0 before ++
        r.slab direction (before.getLastD 0) (first - before.getLastD 0) ::
        r.slab direction first (second - first) :: r.cutFrom direction second after := by
  have later := pairwise_getLastD ascending
  have order : before.getLastD 0 ≤ first := (List.pairwise_cons.mp later).1 first List.mem_cons_self
  have rest := (List.pairwise_cons.mp later).2
  have next : first ≤ second := (List.pairwise_cons.mp rest).1 second List.mem_cons_self
  rw [cut, cutFrom_append ascending, cutFrom_cons order, cutFrom_cons next]

/-- Without the boundary between two parts, their hull takes their place. -/
theorem cut_merged {before after : List ℚ} {first second : ℚ} (nonneg : 0 ≤ r.extent direction)
    (ascending : (0 :: (before ++ first :: second :: after)).Pairwise (· ≤ ·)) :
    let left := r.slab direction (before.getLastD 0) (first - before.getLastD 0)
    let right := r.slab direction first (second - first)
    r.cut direction (before ++ second :: after) =
      r.cutFrom direction 0 before ++ left.hull right :: r.cutFrom direction second after ∧
    ∀ p, p ∈ left.hull right ↔ p ∈ left ∨ p ∈ right := by
  intro left right
  have later := pairwise_getLastD ascending
  have order : before.getLastD 0 ≤ first := (List.pairwise_cons.mp later).1 first List.mem_cons_self
  have rest := (List.pairwise_cons.mp later).2
  have next : first ≤ second := (List.pairwise_cons.mp rest).1 second List.mem_cons_self
  have merged : (0 :: (before ++ second :: after)).Pairwise (· ≤ ·) :=
    ascending.sublist (((List.sublist_cons_self first _).append_left before).cons_cons 0)
  have whole : left.hull right =
      r.slab direction (before.getLastD 0) (second - before.getLastD 0) :=
    hull_slab nonneg order next
  rw [whole]
  constructor
  · rw [cut, cutFrom_append merged, cutFrom_cons (order.trans next)]
  · exact fun p => mem_slab_or order next

end Rect

end DockLayout
