import DockLayout.Plane.Cut

/-!
# Reflection in the diagonal

Cutting a rectangle along one axis and reflecting the parts is cutting the reflected
rectangle along the other axis, and the same holds for the bands around the
boundaries. A point lies in a rectangle when its reflection lies in the reflected one.
-/

set_option autoImplicit false

namespace DockLayout

variable {K : Type}

@[simp] theorem Direction.flip_inj {first second : Direction} :
    first.flip = second.flip ↔ first = second := by
  cases first <;> cases second <;> simp [flip]

@[simp] theorem Point.along_swap (p : Point K) (direction : Direction) :
    p.swap.along direction.flip = p.along direction := by
  cases direction <;> rfl

namespace Rect

@[simp] theorem extent_swap (r : Rect K) (direction : Direction) :
    r.swap.extent direction.flip = r.extent direction := by
  cases direction <;> rfl

variable [Scalar K]

theorem slab_swap (r : Rect K) (direction : Direction) (start span : K) :
    r.swap.slab direction.flip start span = (r.slab direction start span).swap := by
  cases direction <;> rfl

theorem cutFrom_swap (r : Rect K) (direction : Direction) (previous : K) (ratios : List K) :
    r.swap.cutFrom direction.flip previous ratios =
      (r.cutFrom direction previous ratios).map swap := by
  induction ratios generalizing previous with
  | nil => rfl
  | cons ratio rest ih => rw [cutFrom, cutFrom, List.map_cons, slab_swap, ih]

@[simp] theorem cut_swap (r : Rect K) (direction : Direction) (ratios : List K) :
    r.swap.cut direction.flip ratios = (r.cut direction ratios).map swap :=
  r.cutFrom_swap direction 0 ratios

theorem band_swap (r : Rect K) (direction : Direction) (thickness ratio : K) :
    r.swap.band direction.flip thickness ratio = (r.band direction thickness ratio).swap := by
  cases direction <;> rfl

@[simp] theorem bands_swap (r : Rect K) (direction : Direction) (ratios : List K)
    (thickness : K) :
    r.swap.bands direction.flip ratios thickness =
      (r.bands direction ratios thickness).map swap := by
  rw [bands, bands, List.map_map]
  exact List.map_congr_left fun ratio _ => r.band_swap direction thickness ratio

@[simp] theorem mem_swap {r : Rect K} {p : Point K} : p.swap ∈ r.swap ↔ p ∈ r :=
  and_comm

end Rect

end DockLayout
