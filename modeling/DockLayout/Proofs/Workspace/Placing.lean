import DockLayout.Proofs.Panel.Zone
import DockLayout.Proofs.Tree.Nodes
import DockLayout.Proofs.Workspace.Move
import DockLayout.Proofs.Workspace.Splits

/-!
# Sharing a place

A dock that is placed beside another gets a part of the other's place. Over the rationals
the panel that was there keeps its share of it on either side, the new panel has the rest,
and nothing else in the tree moves.
-/

set_option autoImplicit false

namespace DockLayout

namespace Rect

theorem tiled_shares (r : Rect ℚ) (direction : Direction) (before : Bool) {share : ℚ}
    (nonneg : 0 ≤ share) (atMost : share ≤ 1) :
    let kept := r.slab direction (if before then 1 - share else 0) share
    let rest := r.slab direction (if before then 0 else share) (1 - share)
    (∀ p, p ∈ r ↔ p ∈ kept ∨ p ∈ rest) ∧ ∀ p ∈ kept, p ∉ rest := by
  cases before with
  | false => exact r.tiled direction nonneg atMost
  | true =>
    obtain ⟨union, apart⟩ := r.tiled direction (sub_nonneg.mpr atMost) (sub_le_self 1 nonneg)
    rw [sub_sub_cancel] at union apart
    exact ⟨fun p => (union p).trans or_comm, fun p inside other => apart p other inside⟩

end Rect

namespace Workspace

/-- The pair in which a panel keeps a share of its place, after the new panel or before it. -/
theorem besides_eq (ws : Workspace ℚ) (direction : Direction) (panel : Container ℚ)
    (dock : Dock ℚ) (before : Bool) (ratio : ℚ) :
    let share := Split.bounded ratio
    let kept : Container ℚ :=
      { panel with rect := panel.rect.slab direction (if before then 1 - share else 0) share }
    let added : Container ℚ :=
      ws.newContainer dock (panel.rect.slab direction (if before then 0 else share) (1 - share))
    ws.besides direction panel dock before ratio =
      { handle := ⟨ws.nextSplit⟩
        direction
        ratios := [if before then 1 - share else share, 1]
        rect := panel.rect
        children := (if before then [added, kept] else [kept, added]).map .container } := by
  intro share kept added
  cases before with
  | true =>
    rw [besides, if_pos rfl, Split.pair_eq, Split.bounded_complement, sub_sub_cancel]
    rfl
  | false =>
    rw [besides, if_neg Bool.false_ne_true, Split.pair_eq]
    rfl

/-- A dock that is placed beside a target takes a part of the place of the target's panel. The
panel keeps its share, before the new panel or after it, the split around both has the place
that the panel had, and no other node of the tree changes. -/
theorem splitBy_shares_place (ws : Workspace ℚ) (reachable : ws.Reachable)
    (direction : Direction) (target : DockHandle) (listed : target ∈ ws.dockHandles)
    (dock : Dock ℚ) (before : Bool) (ratio : Option ℚ) :
    let share := min (max (ratio.getD ws.config.defaultSplitRatio) (1 / 100)) (99 / 100)
    let outcome := ws.splitBy direction target dock before ratio
    outcome.result = .ok true ∧
    ∃ path panel, ws.locate? target = some (path, panel) ∧
      let kept := panel.rect.slab direction (if before then 1 - share else 0) share
      let added := panel.rect.slab direction (if before then 0 else share) (1 - share)
      let frame : Partition ℚ :=
        ⟨⟨ws.nextSplit⟩, direction, [if before then 1 - share else share, 1], panel.rect⟩
      let panels :=
        if before then [ws.newContainer dock added, { panel with rect := kept }]
        else [{ panel with rect := kept }, ws.newContainer dock added]
      (∀ p, p ∈ panel.rect ↔ p ∈ kept ∨ p ∈ added) ∧ (∀ p ∈ kept, p ∉ added) ∧
      ws.root = some (path.put (.container panel)) ∧
      outcome.state = { ws with
        root := some (path.put (.split frame (panels.map .container)))
        nextSplit := ws.nextSplit + 1 } ∧
      ∃ front back, ws.nodes = front ++ [.container panel] ++ back ∧
        outcome.state.nodes = front ++ .split frame :: panels.map .container ++ back := by
  intro share outcome
  obtain ⟨path, panel, found⟩ := exists_locate? listed
  have free : ∀ given ∈ ratio, (Regime.ordered : Regime ℚ).Share given := fun _ _ => trivial
  obtain ⟨root, rooted, leads, state, -⟩ :=
    reachable.ordered.splitBy_eq direction found dock before free
  rw [besides_eq, Split.bounded_eq] at state
  refine ⟨?_, path, panel, found, ?_⟩
  · simp only [outcome, splitBy, found]
    rfl
  intro kept added frame panels
  have between := Split.bounded_between (ratio.getD ws.config.defaultSplitRatio)
  rw [Split.bounded_eq] at between
  obtain ⟨union, apart⟩ := panel.rect.tiled_shares direction before between.1 between.2
  obtain ⟨front, back, nodes, changed⟩ := leads.exists_nodes
  refine ⟨union, apart, ?_, state, front, back, ?_, ?_⟩
  · rw [rooted, leads.put_target]
  · rw [nodes_of_root rooted, nodes, Area.nodes_container]
  · rw [← Area.nodes_containers, ← Area.nodes_split, ← changed]
    exact nodes_of_root (congrArg Workspace.root state)

/-- Before the middle one of three columns, in a workspace of negative width. -/
theorem splitBy_shares_place_of_mirrored :
    mirrored.Reachable ∧ (⟨4⟩ : DockHandle) ∈ mirrored.dockHandles ∧
    ∃ panel front back, mirrored.nodes = front ++ [.container panel] ++ back ∧
      (mirrored.splitBy .vertical ⟨4⟩ ⟨⟨5⟩, .null, none⟩ true (some (1 / 4))).state.nodes =
        front ++ .split ⟨⟨mirrored.nextSplit⟩, .vertical, [3 / 4, 1], panel.rect⟩ :: [
          .container (mirrored.newContainer ⟨⟨5⟩, .null, none⟩
            (panel.rect.slab .vertical 0 (3 / 4))),
          .container { panel with rect := panel.rect.slab .vertical (3 / 4) (1 / 4) }] ++
          back := by
  have listed : (⟨4⟩ : DockHandle) ∈ mirrored.dockHandles := by decide +kernel
  have share : min (max ((some (1 / 4 : ℚ)).getD mirrored.config.defaultSplitRatio) (1 / 100))
      (99 / 100) = 1 / 4 := by
    norm_num
  have rest : (1 : ℚ) - 1 / 4 = 3 / 4 := by norm_num
  have placed := splitBy_shares_place mirrored mirrored_reachable .vertical ⟨4⟩ listed
    ⟨⟨5⟩, .null, none⟩ true (some (1 / 4))
  simp only [share, rest, if_true] at placed
  obtain ⟨-, path, panel, -, -, -, -, -, front, back, before, after⟩ := placed
  exact ⟨mirrored_reachable, listed, panel, front, back, before, after⟩

end Workspace

end DockLayout
