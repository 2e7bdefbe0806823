import DockLayout.Workspace.Basic

/-!
# Edits of a workspace

Docks are placed beside or onto others, taken out and moved. After a removal
the tree is put in order on the way back to the root: an empty container goes,
a split whose only child goes away goes with it, and a split that is left with
one child gives its place to that child.
-/

set_option autoImplicit false

namespace DockLayout

variable {K : Type} [Scalar K]

/-! ## Edits along a path -/

/-- The tree with another area at the end of the path, laid out again by the
split it is put into. -/
def Path.settle : Path K → Area K → Area K
  | [], area => area
  | [step], area => (step.split.replaceChild step.index area).state.toArea
  | step :: rest, area => step.put (Path.settle rest area)

/-- What is left below a step after a removal. -/
inductive Remains (K : Type) where
  | nothing
  | kept (area : Area K)
  /-- A split with one child, which is to take its place. -/
  | lone (split : Split K)

/-- The split takes in a lone split at a position: its child, or the children of
that child when it is cut along the same axis. -/
def Split.absorb (parent : Split K) (index : Nat) (lone : Split K) :
    Split K × List (Event K) :=
  match lone.children with
  | [] => (parent, [])
  | .split frame children :: _ =>
      if frame.direction = parent.direction then
        ((parent.expandChild index children).state,
          [.splitRemoved frame.handle, .splitRemoved lone.handle])
      else
        ((parent.replaceChild index (.split frame children)).state,
          [.splitRemoved lone.handle])
  | .container panel :: _ =>
      ((parent.replaceChild index (.container panel)).state, [.splitRemoved lone.handle])

/-- Puts a step in order after what happened below it. -/
def Step.tidy (step : Step K) (below : Remains K × List (Event K)) :
    Remains K × List (Event K) :=
  match below.1 with
  | .nothing =>
      if step.split.children.length = 1 then
        (.nothing, below.2 ++ [.splitRemoved step.split.handle])
      else
        let rest := (step.split.removeChild step.index).state
        (if rest.children.length = 1 then .lone rest else .kept rest.toArea, below.2)
  | .kept area => (.kept (step.put area), below.2)
  | .lone split =>
      let (merged, events) := step.split.absorb step.index split
      (.kept merged.toArea, below.2 ++ events)

def Path.vacate (path : Path K) : Remains K × List (Event K) :=
  path.foldr Step.tidy (.nothing, [])

/-- The root of what is left. A lone split hands its rectangle to its child. -/
def Remains.root : Remains K × List (Event K) → Option (Area K) × List (Event K)
  | (.nothing, events) => (none, events)
  | (.kept area, events) => (some area, events)
  | (.lone split, events) =>
      (split.children.head?.map fun survivor => survivor.resize split.rect,
        events ++ [.splitRemoved split.handle])

namespace Workspace

def newContainer (ws : Workspace K) (dock : Dock K) (rect : Rect K) : Container K :=
  .single dock rect ws.config.headerHeight ws.config.dropEdgeFraction

/-! ## Geometry -/

def placeFirst (ws : Workspace K) (dock : Dock K) : Outcome K (Workspace K) Unit :=
  match ws.root with
  | some _ => .refuse ws .rootExists
  | none =>
      .publish { ws with root := some (.container (ws.newContainer dock ws.rect)) } ()
        [.dockAdded dock]

def updateRect (ws : Workspace K) (rect : Rect K) : Outcome K (Workspace K) Unit :=
  .publish { ws with rect, root := ws.root.map fun root => root.resize rect } ()
    [.layoutUpdated rect]

/-- Moves a boundary of the first split with the handle. The answer says whether
there is such a split. -/
def changeRatio (ws : Workspace K) (handle : SplitHandle) (index : Int) (delta : Point K) :
    Outcome K (Workspace K) Bool :=
  match ws.findSplit? handle with
  | none => .quiet ws false
  | some split =>
      let moved := split.changeRatio index delta
      match moved.result with
      | .error error => .refuse ws error
      | .ok _ =>
          .publish { ws with root := ws.root.bind (Area.putSplit handle moved.state) } true
            [.ratioChanged handle index.toNat (moved.state.ratios.getD index.toNat 0)]

/-! ## Placing docks -/

/-- Places a dock next to the container that holds the target, inside a new split
that takes the container's place. The ratio is the share the container keeps. -/
def splitBy (ws : Workspace K) (direction : Direction) (target : DockHandle) (dock : Dock K)
    (before : Bool) (ratio : Option K) : Outcome K (Workspace K) Bool :=
  match ws.locate? target with
  | none => .quiet ws false
  | some (path, panel) =>
      let added : Area K := .container (ws.newContainer dock .zero)
      let kept : Area K := .container panel
      let share := ratio.getD ws.config.defaultSplitRatio
      let (handle, counted) := ws.newSplitHandle
      let split :=
        if before then Split.pair direction (1 - share) handle panel.rect added kept
        else Split.pair direction share handle panel.rect kept added
      .publish { counted with root := some (path.settle split.toArea) } true
        [.splitCreated handle, .dockAdded dock]

def addTab (ws : Workspace K) (target : DockHandle) (dock : Dock K) :
    Outcome K (Workspace K) Bool :=
  match ws.locate? target with
  | none => .quiet ws false
  | some (path, panel) =>
      .publish { ws with root := some (path.put (.container (panel.appendDock dock))) } true
        [.dockAdded dock]

def dropDock (ws : Workspace K) (dock : Dock K) (target : DropTarget) :
    Outcome K (Workspace K) Bool :=
  match target.zone.direction? with
  | none => ws.addTab target.handle dock
  | some direction =>
      ws.splitBy direction target.handle dock target.zone.insertsBefore none

/-! ## Taking docks out -/

/-- Takes out the first dock with the handle and answers with it. -/
def removeDock (ws : Workspace K) (handle : DockHandle) :
    Outcome K (Workspace K) (Option (Dock K)) :=
  match ws.locate? handle with
  | none => .quiet ws none
  | some (path, panel) =>
      match panel.removeDock handle with
      | (none, _) => .quiet ws none
      | (some dock, rest) =>
          if rest.docks.isEmpty then
            let (root, events) := Remains.root path.vacate
            .publish { ws with root } (some dock) (events ++ [.dockRemoved dock])
          else
            .publish { ws with root := some (path.put (.container rest)) } (some dock)
              [.dockRemoved dock]

/-- Moves a dock to a drop target. Nothing happens when either of the two is
missing, or when the dock would be dropped onto itself. -/
def moveDock (ws : Workspace K) (handle : DockHandle) (target : DropTarget) :
    Outcome K (Workspace K) Bool :=
  if handle = target.handle then .quiet ws false
  else if (ws.findContainer? target.handle).isNone then .quiet ws false
  else
    (ws.removeDock handle).andThen fun rest removed =>
      match removed with
      | none => .quiet rest false
      | some dock => rest.dropDock dock target

def setActiveDock (ws : Workspace K) (handle : DockHandle) : Outcome K (Workspace K) Bool :=
  match ws.locate? handle with
  | none => .quiet ws false
  | some (path, panel) =>
      let (shown, changed) := panel.setActive handle
      .quiet { ws with root := some (path.put (.container changed)) } shown

end Workspace

end DockLayout
