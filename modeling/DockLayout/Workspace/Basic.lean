import DockLayout.Tree.HitTest
import DockLayout.Tree.Search
import DockLayout.Tree.Split

/-!
# Workspaces

A workspace owns the tree and hands out handles. Callers name docks and splits
by handle, and every operation looks the handle up from the root, so no edit can
leave a caller with a node that is gone.
-/

set_option autoImplicit false

namespace DockLayout

structure Workspace (K : Type) where
  config : Config K
  rect : Rect K
  root : Option (Area K)
  /-- The value of the next split handle. -/
  nextSplit : Int
  /-- The value of the next dock handle. -/
  nextDock : Int

namespace Workspace

variable {K : Type}

def empty (rect : Rect K) (config : Config K) : Workspace K :=
  { config, rect, root := none, nextSplit := 1, nextDock := 1 }

/-! ## Handles -/

def newSplitHandle (ws : Workspace K) : SplitHandle × Workspace K :=
  (⟨ws.nextSplit⟩, { ws with nextSplit := ws.nextSplit + 1 })

def createDock (ws : Workspace K) (pluginName : Json K) (pluginData : Option (List (Json K))) :
    Dock K × Workspace K :=
  ({ handle := ⟨ws.nextDock⟩, pluginName, pluginData }, { ws with nextDock := ws.nextDock + 1 })

/-! ## Look-up -/

def areas (ws : Workspace K) : List (Area K) :=
  match ws.root with
  | none => []
  | some root => root.visit

def dockHandles (ws : Workspace K) : List DockHandle := Area.dockHandlesIn ws.areas

def locate? (ws : Workspace K) (handle : DockHandle) : Option (Path K × Container K) :=
  ws.root.bind (Area.locate? handle)

def findSplit? (ws : Workspace K) (handle : SplitHandle) : Option (Split K) :=
  ws.root.bind (Area.findSplit? handle)

def findContainer? (ws : Workspace K) (handle : DockHandle) : Option (Container K) :=
  (ws.locate? handle).map Prod.snd

/-! ## Hit tests -/

variable [Scalar K]

def dragTarget? (ws : Workspace K) (p : Point K) : Option DragTarget :=
  ws.root.bind fun root => root.dragTarget? p

def dropTarget? (ws : Workspace K) (p : Point K) :
    Except (LayoutError K) (Option DropTarget) :=
  match ws.root with
  | none => .ok none
  | some root => root.dropTarget? p

def dockAt? (ws : Workspace K) (p : Point K) : Except (LayoutError K) (Option DockHandle) :=
  match ws.root with
  | none => .ok none
  | some root => root.dockAt? p

def hit (ws : Workspace K) (p : Point K) : Except (LayoutError K) Area.Hit :=
  match ws.root with
  | none => .ok { drag := none, drop := none, dock := none }
  | some root => root.hit p

end Workspace

end DockLayout
