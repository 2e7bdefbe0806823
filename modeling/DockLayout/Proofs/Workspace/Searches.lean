import DockLayout.Proofs.Tree.Positions
import DockLayout.Proofs.Workspace.Targets

/-!
# Visits and searches

The visits with a stack, the search by dock and the search by split go through the tree in
one order, the order of the positions. Handles may occur more than once: each search
answers with the first area in this order that has the handle.
-/

set_option autoImplicit false

namespace DockLayout

namespace Workspace

variable {K : Type} {ws : Workspace K}

def at? (ws : Workspace K) (position : List Nat) : Option (Area K) :=
  ws.root.bind fun root => root.at? position

theorem at?_of_root {root : Area K} (rooted : ws.root = some root) : ws.at? = root.at? := by
  funext position
  rw [at?, rooted, Option.bind_some]

theorem areas_eq_elim (ws : Workspace K) : ws.areas = ws.root.elim [] Area.preorder := by
  cases rooted : ws.root with
  | none => rw [areas, rooted]; rfl
  | some root => exact areas_of_root rooted

/-- Every position has its visit, and the visits come in the order of the positions. -/
theorem exists_positions (ws : Workspace K) : ∃ positions : List (List Nat),
    positions.Pairwise (· < ·) ∧ (∀ position, position ∈ positions ↔ (ws.at? position).isSome) ∧
    positions.map ws.at? = ws.areas.map some := by
  rw [areas_eq_elim]
  cases rooted : ws.root with
  | none =>
    refine ⟨[], .nil, ?_, rfl⟩
    intro position
    simp [at?, rooted]
  | some root =>
    rw [at?_of_root rooted]
    exact ⟨root.positions, root.pairwise_positions, fun _ => Area.mem_positions,
      root.map_at?_positions⟩

theorem areas_of_firstAt {wanted : Area K → Prop} {position : List Nat} {area : Area K}
    (first : Area.FirstAt ws.at? wanted position area) :
    ∃ front back, ws.areas = front ++ area :: back ∧ ∀ inner ∈ front, ¬ wanted inner := by
  obtain ⟨root, rooted, -⟩ := Option.bind_eq_some_iff.mp first.present
  rw [at?_of_root rooted] at first
  rw [areas_of_root rooted]
  exact first.preorder_eq

theorem isSome_findContainer? (handle : DockHandle) :
    (ws.findContainer? handle).isSome ↔ handle ∈ ws.dockHandles := by
  rw [findContainer?, Option.isSome_map, Option.isSome_iff_ne_none, Ne, locate?_eq_none_iff,
    not_not]

theorem isSome_findSplit? (handle : SplitHandle) :
    (ws.findSplit? handle).isSome ↔ handle ∈ ws.splitHandles := by
  rw [findSplit?, splitHandles, areas_eq_elim]
  cases ws.root with
  | none => simp [Area.splitHandlesIn]
  | some root =>
    rw [Option.bind_some, Option.isSome_iff_ne_none, Ne, Area.findSplit?_eq_none, not_not]
    rfl

theorem locate?_firstAt {handle : DockHandle} {path : Path K} {panel : Container K}
    (found : ws.locate? handle = some (path, panel)) :
    (∀ depth step, path[depth]? = some step →
      ws.at? ((path.take depth).map Step.index) = some step.split.toArea) ∧
    Area.FirstAt ws.at? (fun area => handle ∈ Area.dockHandlesIn [area]) (path.map Step.index)
      (.container panel) := by
  obtain ⟨root, rooted, search⟩ := Option.bind_eq_some_iff.mp found
  rw [at?_of_root rooted]
  exact ⟨fun _ _ passed => (Area.locate?_leads search).at?_take passed,
    Area.locate?_firstAt search⟩

theorem findSplit?_firstAt {handle : SplitHandle} {split : Split K}
    (found : ws.findSplit? handle = some split) :
    ∃ position, Area.FirstAt ws.at? (fun area => handle ∈ Area.splitHandlesIn [area]) position
      split.toArea := by
  obtain ⟨root, rooted, search⟩ := Option.bind_eq_some_iff.mp found
  rw [at?_of_root rooted]
  exact Area.findSplit?_firstAt search

/-- The visits list each area once, in the order of the positions. A container is found
by a handle that is among those of the docks, and a split by one that is among those of the
splits. Both are the first ones visited that have it, and the way to the container leads
through the splits it names. -/
theorem searches_follow_visits (ws : Workspace K) :
    (∃ positions : List (List Nat), positions.Pairwise (· < ·) ∧
      (∀ position, position ∈ positions ↔ (ws.at? position).isSome) ∧
      positions.map ws.at? = ws.areas.map some) ∧
    ws.areas = ws.root.elim [] Area.preorder ∧
    (∀ handle, (ws.findContainer? handle).isSome ↔ handle ∈ ws.dockHandles) ∧
    (∀ handle panel, ws.findContainer? handle = some panel →
      ∃ path, ws.locate? handle = some (path, panel)) ∧
    (∀ handle path panel, ws.locate? handle = some (path, panel) →
      ws.findContainer? handle = some panel ∧
      (∀ depth step, path[depth]? = some step →
        ws.at? ((path.take depth).map Step.index) = some step.split.toArea) ∧
      Area.FirstAt ws.at? (fun area => handle ∈ Area.dockHandlesIn [area])
        (path.map Step.index) (.container panel) ∧
      ∃ front back, ws.areas = front ++ .container panel :: back ∧
        handle ∉ Area.dockHandlesIn front ∧ handle ∈ panel.docks.map Dock.handle) ∧
    (∀ handle, (ws.findSplit? handle).isSome ↔ handle ∈ ws.splitHandles) ∧
    (∀ handle split, ws.findSplit? handle = some split →
      split.handle = handle ∧
      (∃ position, Area.FirstAt ws.at? (fun area => handle ∈ Area.splitHandlesIn [area])
        position split.toArea) ∧
      ∃ front back, ws.areas = front ++ split.toArea :: back ∧
        handle ∉ Area.splitHandlesIn front) := by
  refine ⟨ws.exists_positions, ws.areas_eq_elim, isSome_findContainer?, ?_, ?_,
    isSome_findSplit?, ?_⟩
  · intro handle panel found
    obtain ⟨entry, search, rfl⟩ := Option.map_eq_some_iff.mp found
    exact ⟨entry.1, search⟩
  · intro handle path panel found
    obtain ⟨passes, first⟩ := locate?_firstAt found
    obtain ⟨front, back, visits, others⟩ := areas_of_firstAt first
    refine ⟨by rw [findContainer?, found, Option.map_some], passes, first, front, back, visits,
      ?_, ?_⟩
    · intro listed
      obtain ⟨inner, member, has⟩ := Area.mem_dockHandlesIn.mp listed
      exact others inner member has
    · simpa [Area.dockHandlesIn] using first.matching
  · intro handle split found
    obtain ⟨position, first⟩ := findSplit?_firstAt found
    obtain ⟨front, back, visits, others⟩ := areas_of_firstAt first
    refine ⟨?_, ⟨position, first⟩, front, back, visits, ?_⟩
    · simpa [Area.splitHandlesIn, Split.toArea, eq_comm] using first.matching
    · intro listed
      obtain ⟨inner, member, has⟩ := Area.mem_splitHandlesIn.mp listed
      exact others inner member has

/-- Two of its panels have a dock of one handle: the left one is found. -/
theorem searches_follow_visits_of_shared :
    shared.dockHandles = [⟨1⟩, ⟨2⟩, ⟨1⟩] ∧
    ∃ path panel, shared.locate? ⟨1⟩ = some (path, panel) ∧ path.map Step.index = [0] ∧
      shared.findContainer? ⟨1⟩ = some panel ∧ shared.at? [0] = some (.container panel) := by
  have handles : shared.dockHandles = [⟨1⟩, ⟨2⟩, ⟨1⟩] := by decide +kernel
  have way : (shared.locate? ⟨1⟩).map (fun entry => entry.1.map Step.index) = some [0] := by
    decide +kernel
  obtain ⟨⟨path, panel⟩, search, left⟩ := Option.map_eq_some_iff.mp way
  obtain ⟨-, -, -, -, located, -⟩ := searches_follow_visits shared
  obtain ⟨found, -, first, -⟩ := located ⟨1⟩ path panel search
  exact ⟨handles, path, panel, search, left, found, left ▸ first.present⟩

end Workspace

end DockLayout
