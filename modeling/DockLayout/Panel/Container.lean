import DockLayout.Panel.Config
import DockLayout.Panel.Target
import DockLayout.Plane.Cut

/-!
# Containers

A container is a panel that shows one of its docks and offers the others as
tabs. The strip of tabs lies along its top edge and is shared out evenly.
-/

set_option autoImplicit false

namespace DockLayout

structure Container (K : Type) where
  docks : List (Dock K)
  /-- The position of the dock that is shown. -/
  active : Nat
  rect : Rect K
  headerHeight : K
  dropEdgeFraction : K

namespace Container

variable {K : Type}

/-! ## Docks -/

def hasDock (c : Container K) (handle : DockHandle) : Bool :=
  c.docks.any fun dock => dock.handle = handle

def indexOf? (c : Container K) (handle : DockHandle) : Option Nat :=
  c.docks.findIdx? fun dock => dock.handle = handle

def activeDock (c : Container K) : Except (LayoutError K) (Dock K) :=
  match c.docks[c.active]? with
  | some dock => .ok dock
  | none => .error .noActiveDock

def appendDock (c : Container K) (dock : Dock K) : Container K :=
  { c with docks := c.docks ++ [dock], active := c.docks.length }

/-- Takes out the first dock with the handle. What is shown stays, or gives way
to the next tab, or to the previous one when it was the last. -/
def removeDock (c : Container K) (handle : DockHandle) : Option (Dock K) × Container K :=
  match c.indexOf? handle with
  | none => (none, c)
  | some index =>
      let rest := c.docks.eraseIdx index
      let active := if index < c.active ∨ rest.length ≤ c.active then c.active - 1 else c.active
      (c.docks[index]?, { c with docks := rest, active })

def setActive (c : Container K) (handle : DockHandle) : Bool × Container K :=
  match c.indexOf? handle with
  | none => (false, c)
  | some index => (true, { c with active := index })

variable [Scalar K]

def single (dock : Dock K) (rect : Rect K) (headerHeight dropEdgeFraction : K) : Container K :=
  { docks := [dock], active := 0, rect, headerHeight, dropEdgeFraction }

/-! ## Geometry -/

/-- The strip of tabs, never higher than the container. -/
def header (c : Container K) : Rect K :=
  ⟨c.rect.x, c.rect.y, c.rect.width, lesser c.headerHeight c.rect.height⟩

/-- The boundaries of `count` equal shares. -/
def evenRatios (count : Nat) : List K :=
  (List.range count).map fun i => ((i + 1 : Nat) : K) / (count : K)

def tabs (c : Container K) : List (Rect K) :=
  c.header.cut .vertical (evenRatios c.docks.length)

def dragTarget? (c : Container K) (p : Point K) : Option DragTarget :=
  if p ∈ c.header then
    ((c.docks.zip c.tabs).find? fun entry => p ∈ entry.2).map fun entry => .tab entry.1.handle
  else none

def edgeDistances (c : Container K) (p : Point K) : List (K × DropZone) :=
  let across := (p.x - c.rect.x) / c.rect.width
  let down := (p.y - c.rect.y) / c.rect.height
  [(across, .left), (1 - across, .right), (down, .top), (1 - down, .bottom)]

/-- The nearer of two edges; the first of two equally near ones. -/
def nearer (best next : K × DropZone) : K × DropZone :=
  if next.1 < best.1 then next else best

def bodyZone (c : Container K) (p : Point K) : DropZone :=
  match c.edgeDistances p with
  | [] => .center
  | first :: rest =>
      let nearest := rest.foldl nearer first
      if nearest.1 < c.dropEdgeFraction then nearest.2 else .center

/-- Where a dock dropped at the point would go. The strip of tabs takes another
tab. -/
def dropTarget? (c : Container K) (p : Point K) :
    Except (LayoutError K) (Option DropTarget) :=
  if p ∈ c.rect then
    match c.activeDock with
    | .error error => .error error
    | .ok dock =>
        .ok (some ⟨dock.handle, if p ∈ c.header then .center else c.bodyZone p⟩)
  else .ok none

def dockAt? (c : Container K) (p : Point K) : Except (LayoutError K) (Option DockHandle) :=
  if p ∈ c.rect then
    match c.activeDock with
    | .error error => .error error
    | .ok dock => .ok (some dock.handle)
  else .ok none

end Container

end DockLayout
