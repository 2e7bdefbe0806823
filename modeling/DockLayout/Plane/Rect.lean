import DockLayout.Scalar
import DockLayout.Plane.Direction

/-!
# Points and rectangles

A rectangle contains its left and top edges and not its right and bottom ones,
so rectangles that share an edge share no point.
-/

set_option autoImplicit false

namespace DockLayout

structure Point (K : Type) where
  x : K
  y : K
deriving DecidableEq

structure Rect (K : Type) where
  x : K
  y : K
  width : K
  height : K
deriving DecidableEq

variable {K : Type}

def Point.along (p : Point K) : Direction → K
  | .horizontal => p.y
  | .vertical => p.x

def Point.swap (p : Point K) : Point K := ⟨p.y, p.x⟩

namespace Rect

def swap (r : Rect K) : Rect K := ⟨r.y, r.x, r.height, r.width⟩

def extent (r : Rect K) : Direction → K
  | .horizontal => r.height
  | .vertical => r.width

variable [Scalar K]

/-- The rectangle of an area that nobody has placed. -/
def zero : Rect K := ⟨0, 0, 0, 0⟩

def Contains (r : Rect K) (p : Point K) : Prop :=
  (r.x ≤ p.x ∧ p.x < r.x + r.width) ∧ (r.y ≤ p.y ∧ p.y < r.y + r.height)

instance membership : Membership (Point K) (Rect K) := ⟨Contains⟩

theorem mem_iff {r : Rect K} {p : Point K} :
    p ∈ r ↔ (r.x ≤ p.x ∧ p.x < r.x + r.width) ∧ (r.y ≤ p.y ∧ p.y < r.y + r.height) :=
  Iff.rfl

instance decidableMem (r : Rect K) (p : Point K) : Decidable (p ∈ r) :=
  decidable_of_iff _ mem_iff.symm

end Rect

end DockLayout
