import DockLayout.Proofs.Tree.PathEdits

/-!
# The nodes of a tree

A tree is known by its nodes in the order of visits: its containers, and its splits without
what lies below them. An area at the end of a route stands for one stretch of this list, and
putting another one there exchanges this stretch.
-/

set_option autoImplicit false

namespace DockLayout

variable {K : Type}

/-- A container, or a split without its children. -/
inductive Node (K : Type) where
  | container (panel : Container K)
  | split (frame : Partition K)

namespace Area

def node : Area K → Node K
  | .container panel => .container panel
  | .split frame _ => .split frame

def nodes (area : Area K) : List (Node K) := area.preorder.map node

@[simp] theorem nodes_container (panel : Container K) :
    (container panel).nodes = [.container panel] := by
  simp [nodes, preorder, node]

@[simp] theorem nodes_split (frame : Partition K) (children : List (Area K)) :
    (split frame children).nodes = .split frame :: children.flatMap nodes := by
  simp only [nodes, preorder, preorderEach_eq, List.map_cons, List.map_flatMap, node]
  rfl

theorem nodes_containers (panels : List (Container K)) :
    (panels.map container).flatMap nodes = panels.map Node.container := by
  rw [List.flatMap_map, List.map_eq_flatMap]
  exact List.flatMap_congr fun panel _ => nodes_container panel

end Area

namespace Path.Leads

variable {path : Path K} {root target : Area K}

/-- Only the nodes of what is at the end of a route are exchanged. -/
theorem exists_nodes (leads : path.Leads root target) :
    ∃ front back, root.nodes = front ++ target.nodes ++ back ∧
      ∀ new : Area K, (path.put new).nodes = front ++ new.nodes ++ back := by
  induction leads with
  | here area =>
    refine ⟨[], [], by simp, fun new => ?_⟩
    rw [List.nil_append, List.append_nil]
    rfl
  | @down step rest child target present onward ih =>
    obtain ⟨front, back, below, changed⟩ := ih
    refine ⟨.split step.split.toPartition ::
      (step.split.children.take step.index).flatMap Area.nodes ++ front,
      back ++ (step.split.children.drop (step.index + 1)).flatMap Area.nodes, ?_, fun new => ?_⟩
    · rw [Split.toArea, Area.nodes_split, Step.flatMap_children present, below]
      simp only [List.cons_append, List.append_assoc]
    · rw [put_cons, Step.put, Area.nodes_split, Step.flatMap_set present, changed]
      simp only [List.cons_append, List.append_assoc]

end Path.Leads

namespace Workspace

def nodes (ws : Workspace K) : List (Node K) := ws.areas.map Area.node

theorem nodes_of_root {ws : Workspace K} {root : Area K} (rooted : ws.root = some root) :
    ws.nodes = root.nodes := by
  simp only [nodes, areas, rooted, Area.visit_eq, Area.nodes]

end Workspace

end DockLayout
