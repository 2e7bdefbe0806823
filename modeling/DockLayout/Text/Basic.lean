/-!
# Text as code points

The strings of a layout file are sequences of code points in which one half of
a surrogate pair may stand alone, so they are kept as numbers and not as
`String`.
-/

set_option autoImplicit false

namespace DockLayout

/-- A sequence of code points, surrogate halves included. -/
structure Text where
  points : List Nat
deriving DecidableEq

namespace Text

def ofChars (chars : List Char) : Text := ⟨chars.map Char.toNat⟩

def ofString (source : String) : Text := ofChars source.toList

/-- Code points that are no characters are dropped. -/
def toString (text : Text) : String :=
  String.ofList (text.points.filterMap fun point =>
    if point.isValidChar then some (Char.ofNat point) else none)

/-- The code point written in capitals, as far as that can yield an ASCII
letter from a single code point. -/
def upperPoint (point : Nat) : Nat :=
  if 97 ≤ point && point ≤ 122 then point - 32
  else if point = 0x131 then 73
  else if point = 0x17F then 83
  else point

def upper (text : Text) : Text := ⟨text.points.map upperPoint⟩

end Text

end DockLayout
