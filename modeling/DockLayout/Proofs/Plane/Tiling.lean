import DockLayout.Proofs.Numbers.Exact
import DockLayout.Proofs.Plane.Slab

/-!
# Tilings

Parts tile a rectangle along an axis when each begins where the one before it ends, the
first at the near edge and the last ending at the far edge, and all of them reach across. This
says nothing of how the parts were computed. A point of the rectangle lies in exactly one
of them, and no point outside it in any.
-/

set_option autoImplicit false

namespace DockLayout.Rect

/-- The parts lie one behind the other from a position to the far edge. -/
inductive TiledFrom (r : Rect ℚ) (direction : Direction) : ℚ → List (Rect ℚ) → Prop
  | done : TiledFrom r direction (r.origin direction + r.extent direction) []
  | part {position : ℚ} {part : Rect ℚ} {rest : List (Rect ℚ)}
      (begins : part.origin direction = position) (nonneg : 0 ≤ part.extent direction)
      (besides : part.origin direction.flip = r.origin direction.flip)
      (across : part.extent direction.flip = r.extent direction.flip)
      (onward : TiledFrom r direction (position + part.extent direction) rest) :
      TiledFrom r direction position (part :: rest)

def Tiled (r : Rect ℚ) (direction : Direction) (parts : List (Rect ℚ)) : Prop :=
  r.TiledFrom direction (r.origin direction) parts

variable {r : Rect ℚ} {direction : Direction}

/-! ## Points -/

theorem TiledFrom.le {position : ℚ} {parts : List (Rect ℚ)}
    (tiled : r.TiledFrom direction position parts) :
    position ≤ r.origin direction + r.extent direction := by
  induction tiled with
  | done => exact le_refl _
  | part begins nonneg besides across onward ih => linarith

theorem TiledFrom.countP {position : ℚ} {parts : List (Rect ℚ)}
    (tiled : r.TiledFrom direction position parts) (p : Point ℚ) :
    parts.countP (p ∈ ·) =
      if (position ≤ p.along direction ∧
          p.along direction < r.origin direction + r.extent direction) ∧
        (r.origin direction.flip ≤ p.along direction.flip ∧
          p.along direction.flip < r.origin direction.flip + r.extent direction.flip)
      then 1 else 0 := by
  induction tiled with
  | done =>
    rw [List.countP_nil, if_neg]
    intro beyond
    exact absurd beyond.1.2 (not_lt.mpr beyond.1.1)
  | @part position part rest begins nonneg besides across onward ih =>
    rw [List.countP_cons, ih]
    simp only [mem_iff_along direction, begins, besides, across, decide_eq_true_eq]
    by_cases early : p.along direction < position + part.extent direction
    · have within := early.trans_le onward.le
      simp only [early, within, not_le.mpr early, and_true, false_and, if_false, zero_add]
    · have behind := not_lt.mp early
      have inside : position ≤ p.along direction := by linarith
      simp only [early, behind, inside, and_false, false_and, true_and, if_false, add_zero]

/-- A point lies in exactly one part of a tiled rectangle, and in none if it lies
outside. -/
theorem Tiled.countP {parts : List (Rect ℚ)} (tiled : r.Tiled direction parts) (p : Point ℚ) :
    parts.countP (p ∈ ·) = if p ∈ r then 1 else 0 := by
  rw [TiledFrom.countP tiled p]
  exact if_congr (mem_iff_along direction).symm rfl rfl

/-! ## Cuts -/

variable {previous : ℚ} {ratios : List ℚ}

theorem tiledFrom_cutFrom (nonneg : 0 ≤ r.extent direction)
    (ascending : (previous :: ratios).Pairwise (· ≤ ·)) (final : ratios.getLastD previous = 1) :
    r.TiledFrom direction (r.origin direction + r.extent direction * previous)
      (r.cutFrom direction previous ratios) := by
  induction ratios generalizing previous with
  | nil =>
    obtain rfl : previous = 1 := final
    rw [mul_one]
    exact .done
  | cons ratio rest ih =>
    obtain ⟨above, later⟩ := List.pairwise_cons.mp ascending
    have order := above ratio List.mem_cons_self
    rw [List.getLastD_cons] at final
    have onward := ih later final
    have reached : r.origin direction + r.extent direction * previous +
        r.extent direction * (ratio - previous) =
          r.origin direction + r.extent direction * ratio := by ring
    rw [cutFrom_cons order]
    refine .part (origin_slab _ _ _ _) ?_ (origin_slab_flip _ _ _ _)
      (extent_slab_flip _ _ _ _) ?_
    · rw [extent_slab]
      exact mul_nonneg nonneg (sub_nonneg.mpr order)
    · rw [extent_slab, reached]
      exact onward

/-- The parts for ordered ratios tile the rectangle. -/
theorem tiled_cut (nonneg : 0 ≤ r.extent direction) (ordered : Ordered ratios) :
    r.Tiled direction (r.cut direction ratios) := by
  have tiled := tiledFrom_cutFrom nonneg (Exact.pairwise_zero ordered)
    (Exact.getLastD_of_ordered ordered)
  rwa [mul_zero, add_zero] at tiled

end DockLayout.Rect
