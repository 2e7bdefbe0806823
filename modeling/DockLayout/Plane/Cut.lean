import DockLayout.Plane.Rect

/-!
# Cutting a rectangle

Ratios are cumulative: each says where a part ends, as a fraction of the extent
along the axis. A ratio below an earlier one yields an empty part and does not
move the parts after it. Bands are the grab regions around the boundaries.
-/

set_option autoImplicit false

namespace DockLayout.Rect

variable {K : Type} [Scalar K]

/-- The part that starts at one fraction of the extent and spans another. -/
def slab (r : Rect K) (direction : Direction) (start span : K) : Rect K :=
  match direction with
  | .horizontal => ⟨r.x, r.y + r.height * start, r.width, r.height * span⟩
  | .vertical => ⟨r.x + r.width * start, r.y, r.width * span, r.height⟩

/-- The parts for the ratios when everything before `previous` is taken. -/
def cutFrom (r : Rect K) (direction : Direction) (previous : K) : List K → List (Rect K)
  | [] => []
  | ratio :: rest =>
      r.slab direction previous (greater 0 (ratio - previous)) ::
        r.cutFrom direction (greater previous ratio) rest

def cut (r : Rect K) (direction : Direction) (ratios : List K) : List (Rect K) :=
  r.cutFrom direction 0 ratios

@[simp] theorem length_cutFrom (r : Rect K) (direction : Direction) (previous : K)
    (ratios : List K) : (r.cutFrom direction previous ratios).length = ratios.length := by
  induction ratios generalizing previous with
  | nil => rfl
  | cons ratio rest ih => simp [cutFrom, ih]

@[simp] theorem length_cut (r : Rect K) (direction : Direction) (ratios : List K) :
    (r.cut direction ratios).length = ratios.length :=
  r.length_cutFrom direction 0 ratios

def band (r : Rect K) (direction : Direction) (thickness ratio : K) : Rect K :=
  let half := thickness / 2.0
  match direction with
  | .horizontal => ⟨r.x, r.y + r.height * ratio - half, r.width, thickness⟩
  | .vertical => ⟨r.x + r.width * ratio - half, r.y, thickness, r.height⟩

def bands (r : Rect K) (direction : Direction) (ratios : List K) (thickness : K) :
    List (Rect K) :=
  ratios.map (r.band direction thickness)

end DockLayout.Rect
