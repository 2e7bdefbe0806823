import DockLayout.Text.Basic

/-!
# Directions

The axis along which an area is cut: horizontal parts are stacked from top to
bottom, vertical parts stand side by side.
-/

set_option autoImplicit false

namespace DockLayout

inductive Direction where
  | horizontal
  | vertical
deriving DecidableEq

namespace Direction

def flip : Direction → Direction
  | horizontal => vertical
  | vertical => horizontal

def name : Direction → Text
  | horizontal => .ofChars ['h', 'o', 'r', 'i', 'z', 'o', 'n', 't', 'a', 'l']
  | vertical => .ofChars ['v', 'e', 'r', 't', 'i', 'c', 'a', 'l']

/-- Accepts the name in capitals and small letters alike. -/
def ofName? (text : Text) : Option Direction :=
  if text.upper = horizontal.name.upper then some horizontal
  else if text.upper = vertical.name.upper then some vertical
  else none

end Direction

end DockLayout
