import DockLayout.Proofs.Tree.Closing
import DockLayout.Proofs.Workspace.Move
import DockLayout.Proofs.Workspace.Splits

/-!
# Closing a panel

Over the rationals taking out a dock moves no other panel, as long as the workspace
is not of negative size. Only the neighbour that takes over the place of a closed
panel gets another rectangle, and its panels are where that rectangle puts them,
into whichever split they have been merged.
-/

set_option autoImplicit false

namespace DockLayout.Workspace

/-- A dock that leaves its container to other docks changes no rectangle. With the last
dock the container goes, and then every panel outside the heir is as before and those
inside it are where the heir's new place puts them. -/
theorem removeDock_moves_no_panel (ws : Workspace ℚ) (reachable : ws.Reachable)
    (wide : 0 ≤ ws.rect.width) (tall : 0 ≤ ws.rect.height) (handle : DockHandle)
    (listed : handle ∈ ws.dockHandles) :
    ∃ path panel, ws.locate? handle = some (path, panel) ∧
      (panel.docks.length ≠ 1 →
        (ws.removeDock handle).state.areas.map Area.rect = ws.areas.map Area.rect) ∧
      (panel.docks.length = 1 →
        ((∀ step ∈ path, step.split.children.length = 1) ∧
          (ws.removeDock handle).state.root = none) ∨
        ∃ closing : path.Closing (.container panel), closing.removed.containers = [panel] ∧
          (∀ p, p ∈ closing.place ↔ p ∈ closing.removed.rect ∨ p ∈ closing.heir.rect) ∧
          ws.containers = closing.panels ∧
          (ws.removeDock handle).state.containers = closing.panelsLeft) := by
  obtain ⟨path, panel, found⟩ := exists_locate? listed
  obtain ⟨root, rooted, leads, -⟩ := locate?_eq_some found
  obtain ⟨sound, place⟩ := reachable.ordered.tree root rooted
  obtain ⟨emptied, kept⟩ := removeDock_of_locate? found
  refine ⟨path, panel, found, ?_, ?_⟩
  · intro others
    obtain ⟨docks, active, -, state⟩ := kept others
    rw [state]
    simp only [areas, rooted, Area.visit_eq]
    apply leads.rects_put
    simp only [Area.preorder, List.map_singleton, Area.rect]
  · intro last
    rw [emptied last]
    have nonneg : root.rect.Nonneg := by
      rw [place]
      intro axis
      cases axis with
      | horizontal => exact tall
      | vertical => exact wide
    rcases leads.vacate_standsFor sound nonneg with single | ⟨closing, union, before, left⟩
    · left
      obtain ⟨events, nothing⟩ := leads.vacate_of_single single
      refine ⟨single, ?_⟩
      rw [nothing, Remains.root]
    · right
      obtain ⟨remaining, same, panels⟩ := left.root
      refine ⟨closing, closing.containers_removed.trans (Area.containers_container panel), union,
        ?_, ?_⟩
      · rw [containers_of_root rooted, before]
      · rw [containers_of_root same, panels]

/-- Two columns, the second of which has a panel above two narrower columns. -/
def nested : Workspace ℚ :=
  let dock (value : Int) : Dock ℚ := ⟨⟨value⟩, .null, none⟩
  ((Session.start (.empty ⟨0, 0, 1000, 800⟩ .standard)).run [
    .placeFirst (dock 1),
    .splitBy .vertical ⟨1⟩ (dock 2) false none,
    .splitBy .horizontal ⟨2⟩ (dock 3) false none,
    .splitBy .vertical ⟨3⟩ (dock 4) false none]).workspace

theorem nested_reachable : nested.Reachable := ⟨_, ⟨_, _, .empty _ _, rfl⟩, rfl⟩

/-- Without the panel above them, the two narrower columns become columns of the root
and get the full height. -/
theorem removeDock_moves_no_panel_of_nested :
    nested.Reachable ∧ 0 ≤ nested.rect.width ∧ 0 ≤ nested.rect.height ∧
    (⟨2⟩ : DockHandle) ∈ nested.dockHandles ∧
    (nested.removeDock ⟨2⟩).state.containers.map Container.rect =
      [⟨0, 0, 500, 800⟩, ⟨500, 0, 250, 800⟩, ⟨750, 0, 250, 800⟩] ∧
    ∃ path panel, nested.locate? ⟨2⟩ = some (path, panel) ∧
      ∃ closing : path.Closing (.container panel), closing.removed.containers = [panel] ∧
        (∀ p, p ∈ closing.place ↔ p ∈ closing.removed.rect ∨ p ∈ closing.heir.rect) ∧
        nested.containers = closing.panels ∧
        (nested.removeDock ⟨2⟩).state.containers = closing.panelsLeft := by
  have wide : 0 ≤ nested.rect.width := by decide +kernel
  have tall : 0 ≤ nested.rect.height := by decide +kernel
  have listed : (⟨2⟩ : DockHandle) ∈ nested.dockHandles := by decide +kernel
  have columns : (nested.removeDock ⟨2⟩).state.containers.map Container.rect =
      [⟨0, 0, 500, 800⟩, ⟨500, 0, 250, 800⟩, ⟨750, 0, 250, 800⟩] := by decide +kernel
  obtain ⟨path, panel, found, -, closes⟩ :=
    removeDock_moves_no_panel nested nested_reachable wide tall ⟨2⟩ listed
  have last : panel.docks.length = 1 := by
    have count : (nested.locate? ⟨2⟩).map (fun entry => entry.2.docks.length) = some 1 := by
      decide +kernel
    rw [found] at count
    exact Option.some.inj count
  have present : (nested.removeDock ⟨2⟩).state.root.isSome = true := by decide +kernel
  rcases closes last with ⟨-, none⟩ | closed
  · rw [none] at present
    cases present
  · exact ⟨nested_reachable, wide, tall, listed, columns, path, panel, found, closed⟩

end DockLayout.Workspace
