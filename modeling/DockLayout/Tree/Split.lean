import DockLayout.Event

/-!
# Splits and their edits

`Split.make` builds a split from a list of ratios that it checks, `Split.pair`
from two areas and one ratio that it brings within bounds. The edits check their
arguments before they touch anything, and lay the children out again when they
succeed.

Areas are values, so a split and an edit have no area in common, and two areas that
look the same are two. What becomes of one area that a caller hands over twice, or
that is a child already, is not described here.
-/

set_option autoImplicit false

namespace DockLayout

namespace Split

variable {K : Type} [Scalar K]

def relayout (s : Split K) : Split K :=
  { s with children := Area.resizeEach s.children (s.rect.cut s.direction s.ratios) }

def resize (s : Split K) (rect : Rect K) : Split K := relayout { s with rect }

/-! ## Construction -/

def hasDescent : List K → Bool
  | first :: second :: rest => second < first || hasDescent (second :: rest)
  | _ => false

def make (children : List (Area K)) (ratios : List K) (direction : Direction)
    (handle : SplitHandle) (rect : Rect K) : Except (LayoutError K) (Split K) :=
  if children.isEmpty then .error .noChildren
  else if children.length ≠ ratios.length then
    .error (.ratioCount children.length ratios.length)
  else
    match ratios.getLast? with
    | none => .error .noChildren
    | some last =>
        if !(last == 1) then .error (.lastRatio last)
        else if hasDescent ratios then .error (.decreasingRatios ratios)
        else .ok (relayout { handle, direction, ratios, rect, children })

def bounded (ratio : K) : K := clamp ratio (minRatio K) (maxRatio K)

/-- Two areas side by side; the first takes the given share of the rectangle. -/
def pair (direction : Direction) (ratio : K) (handle : SplitHandle) (rect : Rect K)
    (first second : Area K) : Split K :=
  relayout { handle, direction, ratios := [bounded ratio, 1], rect, children := [first, second] }

/-! ## Edits -/

def previousRatio (ratios : List K) : Nat → K
  | 0 => 0
  | index + 1 => ratios.getD index 0

def atChild {α : Type} (s : Split K) (index : Int) (edit : Nat → Outcome K (Split K) α) :
    Outcome K (Split K) α :=
  if 0 ≤ index ∧ index < s.children.length then edit index.toNat
  else .refuse s (.childIndex index s.handle s.children.length)

/-- The change of ratio for a displacement of the pointer, against its
direction; none without an extent. -/
def ratioDelta (s : Split K) (delta : Point K) : K :=
  let extent := s.rect.extent s.direction
  if extent == 0 then 0 else -delta.along s.direction / extent

/-- The ratio of a boundary after a displacement: within the bounds first, then
between the neighbouring boundaries. -/
def movedRatio (s : Split K) (index : Nat) (delta : Point K) : K :=
  clamp (bounded (s.ratios.getD index 0 + s.ratioDelta delta))
    (previousRatio s.ratios index) (s.ratios.getD (index + 1) 1)

/-- Moves a boundary. The last one is fixed. -/
def changeRatio (s : Split K) (index : Int) (delta : Point K) : Outcome K (Split K) Unit :=
  if 0 ≤ index ∧ index + 1 < s.ratios.length then
    let moved := s.ratios.set index.toNat (s.movedRatio index.toNat delta)
    .quiet (relayout { s with ratios := moved }) ()
  else .refuse s (.boundaryIndex index s.handle (s.ratios.length - 1))

/-- Puts another area (a value, so no child yet) in the place of a child and answers with the
old one. -/
def replaceChild (s : Split K) (index : Int) (area : Area K) :
    Outcome K (Split K) (Option (Area K)) :=
  s.atChild index fun i =>
    .quiet (relayout { s with children := s.children.set i area }) s.children[i]?

/-- Inserts an area (a value, so no child yet) before a child; the two share its place
evenly. -/
def insertChild (s : Split K) (index : Int) (area : Area K) : Outcome K (Split K) Unit :=
  s.atChild index fun i =>
    let existing := s.ratios.getD i 0
    let middle := existing - (existing - previousRatio s.ratios i) / 2.0
    .quiet (relayout { s with
      children := s.children.insertIdx i area
      ratios := s.ratios.insertIdx i middle }) ()

/-- Takes out a child and answers with it; its place goes to the next child, or
to the previous one when it was the last. -/
def removeChild (s : Split K) (index : Int) : Outcome K (Split K) (Option (Area K)) :=
  s.atChild index fun i =>
    if s.children.length = 1 then .refuse s (.onlyChild s.handle)
    else
      let rest := s.ratios.eraseIdx i
      let ratios := if i = rest.length then rest.dropLast ++ [1] else rest
      .quiet (relayout { s with children := s.children.eraseIdx i, ratios }) s.children[i]?

/-- The ends of consecutive parts of a place, in proportion to their weights and
never beyond its end. `reached` is the weight before them. -/
def shareOut (start span finish whole reached : K) : List K → List K
  | [] => []
  | weight :: rest =>
      lesser (start + (reached + weight) / whole * span) finish ::
        shareOut start span finish whole (reached + weight) rest

/-- The weights of areas that are to share a place, and their sum: their extents
along the axis, or equal weights when these do not add up to anything. -/
def weights (direction : Direction) (areas : List (Area K)) : List K × K :=
  let extents := areas.map fun area => area.rect.extent direction
  if total extents ≤ 0 then (List.replicate areas.length 1, (areas.length : K))
  else (extents, total extents)

/-- Replaces a child by several areas, which share its place in proportion to
their extents. The last of them ends exactly where the child ended. The areas are
values, so they are different ones even where they look the same. -/
def expandChild (s : Split K) (index : Int) (areas : List (Area K)) :
    Outcome K (Split K) Unit :=
  s.atChild index fun i =>
    if areas.isEmpty then .refuse s .noReplacement
    else
      let start := previousRatio s.ratios i
      let finish := s.ratios.getD i 0
      let (shares, whole) := weights s.direction areas
      let ends := (shareOut start (finish - start) finish whole 0 shares).dropLast ++ [finish]
      .quiet (relayout { s with
        children := s.children.take i ++ areas ++ s.children.drop (i + 1)
        ratios := s.ratios.take i ++ ends ++ s.ratios.drop (i + 1) }) ()

end Split

inductive SplitEdit (K : Type) where
  | resize (rect : Rect K)
  | changeRatio (index : Int) (delta : Point K)
  | replaceChild (index : Int) (area : Area K)
  | insertChild (index : Int) (area : Area K)
  | removeChild (index : Int)
  | expandChild (index : Int) (areas : List (Area K))

/-- Runs an edit; the answer is the area it took out, if it took one out. The areas that an
edit brings are values: one that stands in the tree already, or in two places of the edit,
is outside this description. -/
def Split.apply {K : Type} [Scalar K] (s : Split K) :
    SplitEdit K → Outcome K (Split K) (Option (Area K))
  | .resize rect => .quiet (s.resize rect) none
  | .changeRatio index delta => (s.changeRatio index delta).answering fun _ => none
  | .replaceChild index area => s.replaceChild index area
  | .insertChild index area => (s.insertChild index area).answering fun _ => none
  | .removeChild index => s.removeChild index
  | .expandChild index areas => (s.expandChild index areas).answering fun _ => none

end DockLayout
