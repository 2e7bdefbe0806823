import DockLayout.Panel.Container

/-!
# Areas

The layout is a tree. A container is a leaf; a split cuts its rectangle along
one axis and gives the parts to its children in order. Whoever places an area
hands it a rectangle, and the area hands parts of it on to its descendants.
-/

set_option autoImplicit false

namespace DockLayout

/-- A split without its children: who it is and how it cuts its rectangle. -/
structure Partition (K : Type) where
  handle : SplitHandle
  direction : Direction
  ratios : List K
  rect : Rect K

inductive Area (K : Type) where
  | container (panel : Container K)
  | split (frame : Partition K) (children : List (Area K))

structure Split (K : Type) extends Partition K where
  children : List (Area K)

variable {K : Type}

def Split.toArea (s : Split K) : Area K := .split s.toPartition s.children

namespace Area

/-- The rectangle last handed to the area. -/
def rect : Area K → Rect K
  | .container panel => panel.rect
  | .split frame _ => frame.rect

def split? : Area K → Option (Split K)
  | .container _ => none
  | .split frame children => some { toPartition := frame, children }

def container? : Area K → Option (Container K)
  | .container panel => some panel
  | .split .. => none

/-- What holds of every container, and of a split whenever it holds of all its
children, holds of every area. -/
@[elab_as_elim, induction_eliminator]
theorem induction {P : Area K → Prop} (container : ∀ panel, P (.container panel))
    (split : ∀ frame children, (∀ child ∈ children, P child) → P (.split frame children))
    (area : Area K) : P area :=
  @Area.rec K P (fun areas => ∀ child ∈ areas, P child)
    container split (fun _ member => absurd member List.not_mem_nil)
    (fun _ _ first others child member =>
      match List.mem_cons.mp member with
      | .inl same => same ▸ first
      | .inr later => others child later)
    area

/-! ## Placing -/

variable [Scalar K]

mutual

def resize : Area K → Rect K → Area K
  | .container panel, rect => .container { panel with rect }
  | .split frame children, rect =>
      .split { frame with rect } (resizeEach children (rect.cut frame.direction frame.ratios))

/-- Hands out rectangles in order; areas for which none is left keep theirs. -/
def resizeEach : List (Area K) → List (Rect K) → List (Area K)
  | [], _ => []
  | area :: rest, [] => area :: rest
  | area :: rest, rect :: rects => area.resize rect :: resizeEach rest rects

end

@[simp] theorem rect_resize (area : Area K) (rect : Rect K) : (area.resize rect).rect = rect := by
  cases area <;> simp [resize, Area.rect]

@[simp] theorem length_resizeEach (areas : List (Area K)) (rects : List (Rect K)) :
    (resizeEach areas rects).length = areas.length := by
  induction areas generalizing rects with
  | nil => simp [resizeEach]
  | cons area rest ih =>
      cases rects with
      | nil => simp [resizeEach]
      | cons rect rects => simp [resizeEach, ih]

/-! ## Addressing by position -/

omit [Scalar K]

def at? (area : Area K) : List Nat → Option (Area K)
  | [] => some area
  | index :: path =>
      match area with
      | .container _ => none
      | .split _ children => children[index]?.bind fun child => child.at? path

/-- Puts an area in the place that a path of child positions leads to. Nothing
else is laid out again. -/
def putAt (area new : Area K) : List Nat → Area K
  | [] => new
  | index :: path =>
      match area with
      | .container panel => .container panel
      | .split frame children =>
          .split frame (children.modify index fun child => child.putAt new path)

end Area

end DockLayout
