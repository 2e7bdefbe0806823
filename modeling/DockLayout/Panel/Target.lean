import DockLayout.Panel.Dock
import DockLayout.Plane.Direction

/-!
# Targets of the pointer

What a press would drag, and where a release would drop.
-/

set_option autoImplicit false

namespace DockLayout

inductive DragTarget where
  /-- A boundary of a split. -/
  | sizer (split : SplitHandle) (index : Nat) (direction : Direction)
  /-- The tab of a dock. -/
  | tab (dock : DockHandle)
deriving DecidableEq

inductive DropZone where
  | center
  | left
  | right
  | top
  | bottom
deriving DecidableEq

namespace DropZone

/-- The direction of the split that a drop creates; none for another tab. -/
def direction? : DropZone → Option Direction
  | center => none
  | left | right => some .vertical
  | top | bottom => some .horizontal

def insertsBefore : DropZone → Bool
  | left | top => true
  | center | right | bottom => false

def name : DropZone → Text
  | center => .ofChars ['c', 'e', 'n', 't', 'e', 'r']
  | left => .ofChars ['l', 'e', 'f', 't']
  | right => .ofChars ['r', 'i', 'g', 'h', 't']
  | top => .ofChars ['t', 'o', 'p']
  | bottom => .ofChars ['b', 'o', 't', 't', 'o', 'm']

/-- The zones in the order in which equal distances are decided. -/
def all : List DropZone := [center, left, right, top, bottom]

def ofName? (text : Text) : Option DropZone := all.find? fun zone => zone.name = text

end DropZone

structure DropTarget where
  handle : DockHandle
  zone : DropZone
deriving DecidableEq

end DockLayout
