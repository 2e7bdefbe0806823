import DockLayout.Proofs.Tree.HitTest
import DockLayout.Proofs.Workspace.Splits

/-!
# Hit tests of a reachable workspace

Over the rationals the panels of a workspace cover its rectangle without an
overlap, whatever edits have led to it. The queries answer for the panel that is
there.
-/

set_option autoImplicit false

namespace DockLayout.Workspace

section Panels

variable {K : Type} [Scalar K]

def panelsAt (ws : Workspace K) (p : Point K) : List (Container K) :=
  ws.containers.filter fun panel => p ∈ panel.rect

theorem panelsAt_of_root {ws : Workspace K} {root : Area K} (rooted : ws.root = some root)
    (p : Point K) : ws.panelsAt p = root.panelsAt p := by
  rw [panelsAt, containers_of_root rooted, Area.panelsAt]

end Panels

/-- Inside the workspace there is one panel at every point and both queries name the
dock it shows; outside there is none. -/
theorem point_shows_one_panel (ws : Workspace ℚ) (reachable : ws.Reachable) (root : Area ℚ)
    (rooted : ws.root = some root) (p : Point ℚ) :
    (p ∈ ws.rect → ∃ panel dock, ws.panelsAt p = [panel] ∧ panel.activeDock = .ok dock ∧
      ws.dockAt? p = .ok (some dock.handle) ∧
      ∃ zone, ws.dropTarget? p = .ok (some ⟨dock.handle, zone⟩)) ∧
    (p ∉ ws.rect → ws.panelsAt p = [] ∧ ws.dockAt? p = .ok none ∧
      ws.dropTarget? p = .ok none) := by
  obtain ⟨sound, place⟩ := reachable.ordered.tree root rooted
  have asked : ws.dockAt? p = root.dockAt? p := by rw [Workspace.dockAt?, rooted]
  have aimed : ws.dropTarget? p = root.dropTarget? p := by rw [Workspace.dropTarget?, rooted]
  rw [panelsAt_of_root rooted, asked, aimed, ← place]
  constructor
  · intro inside
    exact sound.exists_panelAt inside
  · intro outside
    exact ⟨sound.panelsAt_of_not_mem outside, sound.queries_of_not_mem outside⟩

/-- Three columns that were merged into one split. The boundary between the last two
has then been pushed to the left, so that the second one has no width. -/
def squeezed : Workspace ℚ :=
  let dock (value : Int) : Dock ℚ := ⟨⟨value⟩, .null, none⟩
  ((Session.start (.empty ⟨0, 0, 1000, 800⟩ .standard)).run [
    .placeFirst (dock 1),
    .splitBy .vertical ⟨1⟩ (dock 2) false none,
    .splitBy .horizontal ⟨2⟩ (dock 3) false none,
    .splitBy .vertical ⟨2⟩ (dock 4) false none,
    .removeDock ⟨3⟩,
    .changeRatio ⟨1⟩ 1 ⟨10000, 0⟩]).workspace

theorem squeezed_reachable : squeezed.Reachable := ⟨_, ⟨_, _, .empty _ _, rfl⟩, rfl⟩

/-- Where two columns begin, it is the one with a width that is there. -/
theorem point_shows_one_panel_of_squeezed :
    squeezed.Reachable ∧
    squeezed.containers.map Container.rect =
      [⟨0, 0, 500, 800⟩, ⟨500, 0, 0, 800⟩, ⟨500, 0, 500, 800⟩] ∧
    (∃ panel dock, squeezed.panelsAt ⟨500, 100⟩ = [panel] ∧ panel.activeDock = .ok dock ∧
      squeezed.dockAt? ⟨500, 100⟩ = .ok (some dock.handle) ∧
      ∃ zone, squeezed.dropTarget? ⟨500, 100⟩ = .ok (some ⟨dock.handle, zone⟩)) ∧
    squeezed.panelsAt ⟨1000, 100⟩ = [] ∧ squeezed.dockAt? ⟨1000, 100⟩ = .ok none ∧
      squeezed.dropTarget? ⟨1000, 100⟩ = .ok none := by
  have columns : squeezed.containers.map Container.rect =
      [⟨0, 0, 500, 800⟩, ⟨500, 0, 0, 800⟩, ⟨500, 0, 500, 800⟩] := by decide +kernel
  have inside : (⟨500, 100⟩ : Point ℚ) ∈ squeezed.rect := by decide +kernel
  have outside : (⟨1000, 100⟩ : Point ℚ) ∉ squeezed.rect := by decide +kernel
  have present : squeezed.root.isSome = true := by decide +kernel
  obtain ⟨root, rooted⟩ := Option.isSome_iff_exists.mp present
  have here := point_shows_one_panel squeezed squeezed_reachable root rooted ⟨500, 100⟩
  have there := point_shows_one_panel squeezed squeezed_reachable root rooted ⟨1000, 100⟩
  exact ⟨squeezed_reachable, columns, here.1 inside, there.2 outside⟩

end DockLayout.Workspace
