import DockLayout.Proofs.Binary64.Sums
import DockLayout.Proofs.Success
import DockLayout.Proofs.Tree.Targets
import DockLayout.Proofs.Workspace.Drag
import DockLayout.Proofs.Workspace.Handles
import DockLayout.Proofs.Workspace.Splits

/-!
# Hit tests and edits

A hit test goes down by geometry and an edit by handle. Where handles are distinct both
come to the same area, so a boundary that is grabbed can be moved and a place that is
offered takes a dock. A tab is offered where the strip of tabs is; this lies inside its
container, unless the height of the container is no number.
-/

set_option autoImplicit false

namespace DockLayout

/-- The strip of tabs reaches below the container only if that has no lower edge. -/
theorem Container.mem_rect_of_header {panel : Container Float} {p : Point Float}
    (strip : p ∈ panel.header) : p ∈ panel.rect ↔ panel.rect.height.isNaN = false := by
  obtain ⟨across, above, below⟩ := Rect.mem_iff.mp strip
  rw [Rect.mem_iff]
  constructor
  · rintro ⟨-, -, lower⟩
    by_contra lost
    have sum := Binary64.isNaN_add_right panel.rect.y (eq_true_of_ne_false lost)
    exact Binary64.not_lt_right p.y sum lower
  · intro number
    refine ⟨across, above, ?_⟩
    change p.y < panel.rect.y + lesser panel.headerHeight panel.rect.height at below
    rw [lesser] at below
    split at below
    · exact below
    · rename_i tall
      exact Binary64.lt_add_of_not_lt above below tall number

namespace Workspace

variable {K : Type} [Scalar K] {ws : Workspace K} {p : Point K}

omit [Scalar K] in
theorem areas_of_root {root : Area K} (rooted : ws.root = some root) :
    ws.areas = root.preorder := by
  rw [areas, rooted]
  exact root.visit_eq

omit [Scalar K] in
theorem splitHandles_of_root {root : Area K} (rooted : ws.root = some root) :
    ws.splitHandles = root.splitHandles := by
  rw [splitHandles, areas_of_root rooted, Area.splitHandles]

omit [Scalar K] in
theorem dockHandles_of_root {root : Area K} (rooted : ws.root = some root) :
    ws.dockHandles = Area.dockHandlesIn root.preorder := by
  rw [dockHandles, areas_of_root rooted]

/-! ## Boundaries -/

theorem findSplit?_of_sizer (apart : ws.splitHandles.Nodup) {handle : SplitHandle} {index : Nat}
    {direction : Direction} (grabbed : ws.dragTarget? p = some (.sizer handle index direction)) :
    ∃ split, ws.findSplit? handle = some split ∧ split.direction = direction ∧
      index + 1 < split.ratios.length := by
  obtain ⟨root, rooted, below⟩ := Option.bind_eq_some_iff.mp grabbed
  obtain ⟨split, listed, rfl, along, band⟩ := Area.dragTarget?_sizer below
  rw [splitHandles_of_root rooted] at apart
  refine ⟨split, ?_, along, Partition.sizerAt?_lt band⟩
  rw [findSplit?, rooted]
  exact Area.findSplit?_of_nodup apart listed

/-- A boundary is moved in the split that is found by the handle, which is then found
again. -/
theorem changeRatio_of_lt {handle : SplitHandle} {split : Split K}
    (found : ws.findSplit? handle = some split) {index : Nat}
    (inside : index + 1 < split.ratios.length) (delta : Point K) :
    (ws.changeRatio handle index delta).result = .ok true ∧
      (ws.changeRatio handle index delta).state.findSplit? handle = some (Split.relayout
        { split with ratios := split.ratios.set index (split.movedRatio index delta) }) := by
  obtain ⟨root, rooted, search⟩ := Option.bind_eq_some_iff.mp found
  have valid : (0 : Int) ≤ index ∧ (index : Int) + 1 < split.ratios.length := by omega
  let moved := Split.relayout
    { split with ratios := split.ratios.set index (split.movedRatio index delta) }
  have named : moved.handle = handle := (Area.findSplit?_leads search).1
  have again := Area.findSplit?_putSplit named root
  rw [search, Option.map_some] at again
  rw [changeRatio, found]
  simp only [Split.changeRatio, if_pos valid, Outcome.quiet, Outcome.publish, rooted,
    Option.bind_some, Int.toNat_natCast, findSplit?, true_and]
  exact again

/-! ## Containers -/

/-- The tab that is grabbed is one of the container that is found by the handle. -/
theorem locate?_of_tab (apart : ws.dockHandles.Nodup) {handle : DockHandle}
    (grabbed : ws.dragTarget? p = some (.tab handle)) :
    ∃ path panel, ws.locate? handle = some (path, panel) ∧ p ∈ panel.header ∧
      (p ∈ panel.rect ∨ ws.root = some (.container panel)) := by
  obtain ⟨root, rooted, below⟩ := Option.bind_eq_some_iff.mp grabbed
  obtain ⟨panel, listed, strip, ⟨dock, member, rfl⟩, inside⟩ := Area.dragTarget?_tab below
  rw [dockHandles_of_root rooted] at apart
  obtain ⟨path, found⟩ := Area.locate?_of_nodup apart listed member
  refine ⟨path, panel, ?_, strip, ?_⟩
  · rw [locate?, rooted]
    exact found
  · rw [rooted]
    exact inside.imp_right (congrArg some)

theorem locate?_of_drop (apart : ws.dockHandles.Nodup) {target : DropTarget}
    (aimed : ws.dropTarget? p = .ok (some target)) :
    ∃ path panel dock, ws.locate? target.handle = some (path, panel) ∧
      panel.activeDock = .ok dock ∧ p ∈ panel.rect ∧
      target = ⟨dock.handle, if p ∈ panel.header then .center else panel.bodyZone p⟩ := by
  rw [dropTarget?] at aimed
  split at aimed
  · cases aimed
  · rename_i root rooted
    obtain ⟨panel, listed, here⟩ := Area.dropTarget?_panel aimed
    obtain ⟨inside, dock, shown, same⟩ := Container.dropTarget?_eq_some here
    have member : dock ∈ panel.docks := by
      rw [Container.activeDock] at shown
      split at shown
      · rename_i first present
        exact Except.ok.inj shown ▸ List.mem_of_getElem? present
      · cases shown
    rw [dockHandles_of_root rooted] at apart
    obtain ⟨path, found⟩ := Area.locate?_of_nodup apart listed member
    refine ⟨path, panel, dock, ?_, shown, inside, same⟩
    rw [locate?, rooted, same]
    exact found

/-! ## Targets -/

/-- Whatever can be dragged or dropped on is there for the edit that would follow. A tab
is grabbed outside its container only where that fills the workspace and has no lower
edge. -/
theorem hit_tests_name_what_edits_find (ws : Workspace Float) (reachable : ws.Reachable)
    (splits : ws.splitHandles.Nodup) (docks : ws.dockHandles.Nodup) (p : Point Float) :
    (∀ handle index direction, ws.dragTarget? p = some (.sizer handle index direction) →
      ∃ split, ws.findSplit? handle = some split ∧ split.direction = direction ∧
        index + 1 < split.children.length ∧
        ∀ delta, (ws.changeRatio handle index delta).result = .ok true) ∧
    (∀ handle, ws.dragTarget? p = some (.tab handle) →
      ∃ panel, ws.findContainer? handle = some panel ∧
        (panel.rect.height.isNaN = false → p ∈ panel.rect) ∧
        (panel.rect.height.isNaN = true → p ∉ panel.rect ∧ ws.root = some (.container panel))) ∧
    ∀ target, ws.dropTarget? p = .ok (some target) →
      ∃ panel dock, ws.findContainer? target.handle = some panel ∧
        panel.activeDock = .ok dock ∧ dock.handle = target.handle ∧ p ∈ panel.rect ∧
        ∀ new, (ws.dropDock new target).result = .ok true := by
  have sound := reachable.sound
  refine ⟨?_, ?_, ?_⟩
  · intro handle index direction grabbed
    obtain ⟨split, found, along, inside⟩ := findSplit?_of_sizer splits grabbed
    have count := sound.findSplit?_count found
    exact ⟨split, found, along, by omega, fun delta => (changeRatio_of_lt found inside delta).1⟩
  · intro handle grabbed
    obtain ⟨path, panel, found, strip, inside⟩ := locate?_of_tab docks grabbed
    have lower := Container.mem_rect_of_header strip
    refine ⟨panel, by rw [findContainer?, found, Option.map_some], lower.mpr, ?_⟩
    intro lost
    have outside : p ∉ panel.rect := by
      intro within
      rw [lower.mp within] at lost
      cases lost
    exact ⟨outside, inside.resolve_left outside⟩
  · intro target aimed
    obtain ⟨path, panel, dock, found, shown, inside, same⟩ := locate?_of_drop docks aimed
    refine ⟨panel, dock, by rw [findContainer?, found, Option.map_some], shown, ?_, inside, ?_⟩
    · rw [same]
    · intro new
      exact (dropDock_of_locate? sound.filled found new).1

def columns : Workspace Float :=
  let dock (value : Int) : Dock Float := ⟨⟨value⟩, .null, none⟩
  ((Session.start (.empty ⟨0.0, 0.0, 1000.0, 800.0⟩ .standard)).run [
    .placeFirst (dock 1),
    .splitBy .vertical ⟨1⟩ (dock 2) false none,
    .addTab ⟨1⟩ (dock 3)]).workspace

theorem columns_reachable : columns.Reachable := ⟨_, ⟨_, _, .empty _ _, rfl⟩, rfl⟩

/-- One panel whose height is no number. -/
def bottomless : Workspace Float :=
  ((Session.start (.empty ⟨0.0, 0.0, 100.0, Double.notANumber⟩ .standard)).run [
    .placeFirst ⟨⟨1⟩, .null, none⟩]).workspace

theorem bottomless_reachable : bottomless.Reachable := ⟨_, ⟨_, _, .empty _ _, rfl⟩, rfl⟩

theorem hit_tests_name_what_edits_find_of_columns :
    (columns.Reachable ∧ columns.splitHandles = [⟨1⟩] ∧
      columns.dockHandles = [⟨1⟩, ⟨3⟩, ⟨2⟩] ∧
      columns.dragTarget? ⟨500.0, 400.0⟩ = some (.sizer ⟨1⟩ 0 .vertical) ∧
      (∀ delta, (columns.changeRatio ⟨1⟩ 0 delta).result = .ok true) ∧
      columns.dropTarget? ⟨900.0, 400.0⟩ = .ok (some ⟨⟨2⟩, .right⟩) ∧
      ∀ new, (columns.dropDock new ⟨⟨2⟩, .right⟩).result = .ok true) ∧
    bottomless.Reachable ∧ bottomless.dragTarget? ⟨5.0, 5.0⟩ = some (.tab ⟨1⟩) ∧
      ∃ panel, bottomless.findContainer? ⟨1⟩ = some panel ∧ ⟨5.0, 5.0⟩ ∉ panel.rect := by
  have splits : columns.splitHandles = [⟨1⟩] := by decide +kernel
  have docks : columns.dockHandles = [⟨1⟩, ⟨3⟩, ⟨2⟩] := by decide +kernel
  have apart : columns.splitHandles.Nodup ∧ columns.dockHandles.Nodup := by
    rw [splits, docks]
    decide
  have grabbed : columns.dragTarget? ⟨500.0, 400.0⟩ = some (.sizer ⟨1⟩ 0 .vertical) := by
    decide +kernel
  have aimed : columns.dropTarget? ⟨900.0, 400.0⟩ = .ok (some ⟨⟨2⟩, .right⟩) :=
    Success.toOption_eq_some.mp (by decide +kernel)
  obtain ⟨split, -, -, -, moves⟩ := (hit_tests_name_what_edits_find columns columns_reachable
    apart.1 apart.2 ⟨500.0, 400.0⟩).1 _ _ _ grabbed
  obtain ⟨panel, dock, -, -, -, -, takes⟩ := (hit_tests_name_what_edits_find columns
    columns_reachable apart.1 apart.2 ⟨900.0, 400.0⟩).2.2 _ aimed
  have tab : bottomless.dragTarget? ⟨5.0, 5.0⟩ = some (.tab ⟨1⟩) := by decide +kernel
  have lost : ∀ panel ∈ bottomless.findContainer? ⟨1⟩, panel.rect.height.isNaN = true := by
    decide +kernel
  obtain ⟨only, found, -, outside⟩ := (hit_tests_name_what_edits_find bottomless
    bottomless_reachable (by decide +kernel) (by decide +kernel) ⟨5.0, 5.0⟩).2.1 _ tab
  exact ⟨⟨columns_reachable, splits, docks, grabbed, moves, aimed, takes⟩,
    bottomless_reachable, tab, only, found, (outside (lost only found)).1⟩

end Workspace

end DockLayout
