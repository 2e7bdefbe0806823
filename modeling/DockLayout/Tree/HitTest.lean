import DockLayout.Tree.Area

/-!
# Hit tests

What lies under the pointer. A split asks the first child whose rectangle
contains the point; its boundaries come before its children when something is
to be dragged.
-/

set_option autoImplicit false

namespace DockLayout

variable {K : Type} [Scalar K]

namespace Partition

/-- The grab regions of all boundaries but the last. -/
def sizers (frame : Partition K) : List (Rect K) :=
  frame.rect.bands frame.direction frame.ratios.dropLast (sizerThickness K)

def sizerAt? (frame : Partition K) (p : Point K) : Option Nat :=
  frame.sizers.findIdx? fun band => p ∈ band

end Partition

def Split.childAt? (s : Split K) (p : Point K) : Option (Area K) :=
  s.children.find? fun child => p ∈ child.rect

namespace Area

mutual

def dragTarget? : Area K → Point K → Option DragTarget
  | .container panel, p => panel.dragTarget? p
  | .split frame children, p =>
      match frame.sizerAt? p with
      | some index => some (.sizer frame.handle index frame.direction)
      | none => dragTargetIn children p

def dragTargetIn : List (Area K) → Point K → Option DragTarget
  | [], _ => none
  | child :: rest, p => if p ∈ child.rect then child.dragTarget? p else dragTargetIn rest p

end

/-- The children are asked through the first one that contains the point. -/
theorem dragTargetIn_eq (children : List (Area K)) (p : Point K) :
    dragTargetIn children p =
      (children.find? fun child => p ∈ child.rect).bind fun child => child.dragTarget? p := by
  induction children with
  | nil => rfl
  | cons child rest ih => by_cases inside : p ∈ child.rect <;> simp [dragTargetIn, inside, ih]

mutual

def dropTarget? : Area K → Point K → Except (LayoutError K) (Option DropTarget)
  | .container panel, p => panel.dropTarget? p
  | .split _ children, p => dropTargetIn children p

def dropTargetIn : List (Area K) → Point K → Except (LayoutError K) (Option DropTarget)
  | [], _ => .ok none
  | child :: rest, p => if p ∈ child.rect then child.dropTarget? p else dropTargetIn rest p

end

theorem dropTargetIn_eq (children : List (Area K)) (p : Point K) :
    dropTargetIn children p =
      match children.find? fun child => p ∈ child.rect with
      | none => .ok none
      | some child => child.dropTarget? p := by
  induction children with
  | nil => rfl
  | cons child rest ih => by_cases inside : p ∈ child.rect <;> simp [dropTargetIn, inside, ih]

mutual

def dockAt? : Area K → Point K → Except (LayoutError K) (Option DockHandle)
  | .container panel, p => panel.dockAt? p
  | .split _ children, p => dockIn children p

def dockIn : List (Area K) → Point K → Except (LayoutError K) (Option DockHandle)
  | [], _ => .ok none
  | child :: rest, p => if p ∈ child.rect then child.dockAt? p else dockIn rest p

end

theorem dockIn_eq (children : List (Area K)) (p : Point K) :
    dockIn children p =
      match children.find? fun child => p ∈ child.rect with
      | none => .ok none
      | some child => child.dockAt? p := by
  induction children with
  | nil => rfl
  | cons child rest ih => by_cases inside : p ∈ child.rect <;> simp [dockIn, inside, ih]

structure Hit where
  drag : Option DragTarget
  drop : Option DropTarget
  dock : Option DockHandle

def hit (area : Area K) (p : Point K) : Except (LayoutError K) Hit := do
  let drop ← area.dropTarget? p
  let dock ← area.dockAt? p
  return { drag := area.dragTarget? p, drop, dock }

end Area

end DockLayout
