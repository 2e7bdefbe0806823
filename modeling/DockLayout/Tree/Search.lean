import DockLayout.Tree.Area

/-!
# Searching the tree

All searches follow one order: an area comes before its descendants, and a child
before the children after it. `preorder` states that order by recursion and
`visit` with a stack of areas still to be visited.
-/

set_option autoImplicit false

namespace DockLayout

variable {K : Type}

namespace Area

mutual

def preorder : Area K → List (Area K)
  | .container panel => [.container panel]
  | .split frame children => .split frame children :: preorderEach children

def preorderEach : List (Area K) → List (Area K)
  | [] => []
  | area :: rest => area.preorder ++ preorderEach rest

end

theorem preorderEach_eq (areas : List (Area K)) :
    preorderEach areas = areas.flatMap preorder := by
  induction areas with
  | nil => rfl
  | cons area rest ih => simp [preorderEach, ih]

mutual

def size : Area K → Nat
  | .container _ => 1
  | .split _ children => sizeEach children + 1

def sizeEach : List (Area K) → Nat
  | [] => 0
  | area :: rest => area.size + sizeEach rest

end

theorem sizeEach_append (first second : List (Area K)) :
    sizeEach (first ++ second) = sizeEach first + sizeEach second := by
  induction first with
  | nil => simp [sizeEach]
  | cons area rest ih => simp [sizeEach, ih, Nat.add_assoc]

/-- Visits the areas on the stack, the first one first; a visited split puts its
children on the stack. One unit of fuel is spent on every area. -/
def visitStack : Nat → List (Area K) → List (Area K)
  | 0, _ => []
  | _ + 1, [] => []
  | fuel + 1, .container panel :: rest => .container panel :: visitStack fuel rest
  | fuel + 1, .split frame children :: rest =>
      .split frame children :: visitStack fuel (children ++ rest)

def visit (area : Area K) : List (Area K) := visitStack area.size [area]

/-- With fuel for every area on the stack, the visits follow the recursive
order. -/
theorem visitStack_eq (fuel : Nat) (stack : List (Area K)) (enough : sizeEach stack ≤ fuel) :
    visitStack fuel stack = preorderEach stack := by
  induction fuel generalizing stack with
  | zero =>
    cases stack with
    | nil => rfl
    | cons area rest => cases area <;> simp [sizeEach, size] at enough
  | succ fuel ih =>
    cases stack with
    | nil => rfl
    | cons area rest =>
      cases area with
      | container panel =>
        have remaining : sizeEach rest ≤ fuel := by
          simp only [sizeEach, size] at enough
          omega
        simp [visitStack, preorderEach, preorder, ih rest remaining]
      | split frame children =>
        have remaining : sizeEach (children ++ rest) ≤ fuel := by
          simp only [sizeEach, size] at enough
          rw [sizeEach_append]
          omega
        simp [visitStack, preorderEach, preorder, ih (children ++ rest) remaining,
          preorderEach_eq]

@[simp] theorem visit_eq (area : Area K) : area.visit = area.preorder := by
  have enough : sizeEach [area] ≤ area.size := by simp [sizeEach]
  rw [visit, visitStack_eq area.size [area] enough]
  simp [preorderEach]

/-- The handles of the docks in a list of areas, each container on its own. -/
def dockHandlesIn (areas : List (Area K)) : List DockHandle :=
  areas.flatMap fun area =>
    match area with
    | .container panel => panel.docks.map Dock.handle
    | .split .. => []

def splitHandlesIn (areas : List (Area K)) : List SplitHandle :=
  areas.filterMap fun area =>
    match area with
    | .container _ => none
    | .split frame _ => some frame.handle

def containers (area : Area K) : List (Container K) := area.preorder.filterMap container?

/-! ## Splits by handle -/

mutual

def findSplit? (handle : SplitHandle) : Area K → Option (Split K)
  | .container _ => none
  | .split frame children =>
      if frame.handle = handle then some { toPartition := frame, children }
      else findSplitIn handle children

def findSplitIn (handle : SplitHandle) : List (Area K) → Option (Split K)
  | [] => none
  | area :: rest =>
      match area.findSplit? handle with
      | some found => some found
      | none => findSplitIn handle rest

end

mutual

def putSplit (handle : SplitHandle) (new : Split K) : Area K → Option (Area K)
  | .container _ => none
  | .split frame children =>
      if frame.handle = handle then some new.toArea
      else (putSplitIn handle new children).map (.split frame)

def putSplitIn (handle : SplitHandle) (new : Split K) : List (Area K) → Option (List (Area K))
  | [] => none
  | area :: rest =>
      match area.putSplit handle new with
      | some changed => some (changed :: rest)
      | none => (putSplitIn handle new rest).map (area :: ·)

end

end Area

/-! ## Containers by dock -/

/-- A split and the position of one of its children. -/
structure Step (K : Type) where
  split : Split K
  index : Nat

/-- The way from the root down to an area, the root's step first. -/
abbrev Path (K : Type) := List (Step K)

namespace Area

mutual

def locate? (handle : DockHandle) : Area K → Option (Path K × Container K)
  | .container panel => if panel.hasDock handle then some ([], panel) else none
  | .split frame children =>
      match locateIn handle children 0 with
      | some (index, path, panel) =>
          some ({ split := { toPartition := frame, children }, index } :: path, panel)
      | none => none

/-- The first of the children under which the dock is found, counted from
`index`. -/
def locateIn (handle : DockHandle) :
    List (Area K) → Nat → Option (Nat × Path K × Container K)
  | [], _ => none
  | area :: rest, index =>
      match area.locate? handle with
      | some (path, panel) => some (index, path, panel)
      | none => locateIn handle rest (index + 1)

end

end Area

def Step.put (step : Step K) (area : Area K) : Area K :=
  .split step.split.toPartition (step.split.children.set step.index area)

def Path.put (path : Path K) (area : Area K) : Area K := path.foldr Step.put area

end DockLayout
