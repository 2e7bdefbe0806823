import DockLayout.Proofs.Tree.Branching
import DockLayout.Proofs.Workspace.Splits
import DockLayout.Proofs.Workspace.Stable

/-!
# Well-formed trees

In a workspace that a run has reached no panel is empty, every panel shows one of its
docks and has the settings of the workspace, and no split is without children. A tree
whose splits all divide their place goes on doing so; only a layout file can bring in
a split with a single child.
-/

set_option autoImplicit false

namespace DockLayout.Workspace

variable {K : Type}

def Branching (ws : Workspace K) : Prop := ∀ root ∈ ws.root, root.Branching

theorem branching_iff {ws : Workspace K} :
    ws.Branching ↔ ∀ area ∈ ws.areas, ∀ split ∈ area.split?, 2 ≤ split.children.length := by
  rw [Branching, areas]
  cases ws.root with
  | none => simp
  | some root => simp [Area.branching_iff]

theorem branching_of_root {ws : Workspace K} {root : Area K} (branching : root.Branching) :
    Branching { ws with root := some root } := by
  rintro _ ⟨⟩
  exact branching

theorem Branching.putPanel {ws : Workspace K} (branching : ws.Branching) {handle : DockHandle}
    {path : Path K} {panel : Container K} (found : ws.locate? handle = some (path, panel))
    (changed : Container K) :
    Branching { ws with root := some (path.put (.container changed)) } := by
  obtain ⟨root, same, leads, -⟩ := locate?_eq_some found
  exact branching_of_root (leads.branching_put (branching root same) (.container changed))

variable [Scalar K]

theorem Branching.splitBy {ws : Workspace K} (branching : ws.Branching) (direction : Direction)
    (target : DockHandle) (dock : Dock K) (before : Bool) (ratio : Option K) :
    (ws.splitBy direction target dock before ratio).state.Branching := by
  unfold Workspace.splitBy
  cases found : ws.locate? target with
  | none => exact branching
  | some entry =>
    obtain ⟨path, panel⟩ := entry
    obtain ⟨root, same, leads, -⟩ := locate?_eq_some found
    have pair : ∀ (share : K) (handle : SplitHandle) (first second : Container K),
        (Split.pair direction share handle panel.rect (.container first)
          (.container second)).toArea.Branching := by
      intro share handle first second
      refine Split.branching_relayout (.split (Nat.le_refl 2) ?_)
      simp [Area.Branching.container]
    cases before with
    | true => exact branching_of_root (leads.branching_settle (branching root same) (pair _ _ _ _))
    | false => exact branching_of_root (leads.branching_settle (branching root same) (pair _ _ _ _))

theorem Branching.removeDock {ws : Workspace K} (branching : ws.Branching)
    (handle : DockHandle) : (ws.removeDock handle).state.Branching := by
  cases found : ws.locate? handle with
  | none =>
    simp only [Workspace.removeDock, found]
    exact branching
  | some entry =>
    obtain ⟨path, panel⟩ := entry
    obtain ⟨root, same, leads, -⟩ := locate?_eq_some found
    obtain ⟨emptied, kept⟩ := removeDock_of_locate? found
    by_cases last : panel.docks.length = 1
    · rw [emptied last]
      exact Remains.branching_root (leads.branching_vacate (branching root same))
    · obtain ⟨docks, active, -, state⟩ := kept last
      rw [state]
      exact branching.putPanel found _

theorem Branching.changeRatio {ws : Workspace K} (branching : ws.Branching)
    (handle : SplitHandle) (index : Int) (delta : Point K) :
    (ws.changeRatio handle index delta).state.Branching := by
  rcases ws.changeRatio_cases handle index delta with
    ⟨-, missed⟩ | ⟨split, -, -, refused⟩ |
    ⟨split, moved, root, path, -, -, rfl, same, leads, changed⟩
  · rw [missed]
    exact branching
  · rw [refused]
    exact branching
  · rw [changed]
    have below := leads.branching (branching root same)
    have moved := Split.branching_relayout (s := { split with
      ratios := split.ratios.set index.toNat (split.movedRatio index.toNat delta) })
      (.split below.several fun child listed => below.child listed)
    exact branching_of_root (leads.branching_put (branching root same) moved)

theorem stable_branching : Stable (Branching : Workspace K → Prop) where
  createDock := fun branching _ _ => branching
  newSplitHandle := fun branching => branching
  placeFirst := by
    intro ws branching dock
    unfold placeFirst
    cases ws.root with
    | some root => exact branching
    | none => exact branching_of_root (.container _)
  updateRect := by
    intro ws branching rect root placed
    obtain ⟨origin, same, rfl⟩ := Option.map_eq_some_iff.mp placed
    exact (branching origin same).resize rect
  changeRatio := Branching.changeRatio
  splitBy := Branching.splitBy
  addTab := by
    intro ws branching target dock
    unfold addTab
    cases found : ws.locate? target with
    | none => exact branching
    | some entry => exact branching.putPanel found _
  removeDock := Branching.removeDock
  setActiveDock := by
    intro ws branching handle
    unfold setActiveDock
    cases found : ws.locate? handle with
    | none => exact branching
    | some entry => exact branching.putPanel found _

/-! ## Panels -/

theorem Sound.of_mem_containers {regime : Regime K} {ws : Workspace K} (sound : ws.Sound regime)
    {panel : Container K} (listed : panel ∈ ws.containers) :
    panel.active < panel.docks.length ∧ panel.headerHeight = ws.config.headerHeight ∧
      panel.dropEdgeFraction = ws.config.dropEdgeFraction := by
  obtain ⟨area, present, same⟩ := List.mem_filterMap.mp listed
  have whole := sound.of_mem_areas present
  cases area with
  | split frame children => cases same
  | container found =>
    cases same
    cases whole with
    | container shown header edge room => exact ⟨shown, header, edge⟩

/-- Whatever a session began with and whatever it was asked since, its panels show one
of their docks and have the settings of the workspace, and its splits have children;
they have at least two if those of the first tree had. -/
theorem trees_stay_well_formed (ws : Workspace K) (initial : ws.Initial)
    (actions : List (Action K)) :
    let later := ((Session.start ws).run actions).workspace
    (∀ panel ∈ later.containers,
      panel.docks ≠ [] ∧ panel.active < panel.docks.length ∧
      (∃ dock ∈ panel.docks, panel.activeDock = .ok dock) ∧
      panel.headerHeight = later.config.headerHeight ∧
      panel.dropEdgeFraction = later.config.dropEdgeFraction) ∧
    (∀ area ∈ later.areas, ∀ split ∈ area.split?, split.children ≠ []) ∧
    ((∀ area ∈ ws.areas, ∀ split ∈ area.split?, 2 ≤ split.children.length) →
      ∀ area ∈ later.areas, ∀ split ∈ area.split?, 2 ≤ split.children.length) := by
  intro later
  have sound : later.Sound Regime.any := Reachable.sound ⟨_, ⟨ws, actions, initial, rfl⟩, rfl⟩
  refine ⟨?_, ?_, ?_⟩
  · intro panel listed
    obtain ⟨shown, header, edge⟩ := sound.of_mem_containers listed
    refine ⟨List.ne_nil_of_length_pos (Nat.zero_lt_of_lt shown), shown, ?_, header, edge⟩
    refine ⟨panel.docks[panel.active], List.getElem_mem shown, ?_⟩
    simp only [Container.activeDock, List.getElem?_eq_getElem shown]
  · intro area listed split same
    have filled := (sound.of_mem_areas listed).filled
    cases area with
    | container panel => cases same
    | split frame children =>
      cases same
      exact filled.children_ne_nil
  · intro several
    have branching := stable_branching.run (s := Session.start ws) (branching_iff.mpr several)
      actions
    exact branching_iff.mp branching

/-- A panel is divided and closed again, which collapses the new split, and the last
panel but one is closed, which collapses the split that was read. -/
theorem trees_stay_well_formed_of_oversized :
    ∃ ws : Workspace ℚ, (decode oversized none .standard).result = .ok ws ∧
      (∀ area ∈ ws.areas, ∀ split ∈ area.split?, 2 ≤ split.children.length) ∧
      let later := ((Session.start ws).run [
        .splitBy .horizontal ⟨2⟩ ⟨⟨4⟩, .null, none⟩ true none,
        .removeDock ⟨2⟩, .press ⟨1, 1⟩, .removeDock ⟨1⟩]).workspace
      (∀ panel ∈ later.containers,
        panel.docks ≠ [] ∧ panel.active < panel.docks.length ∧
        (∃ dock ∈ panel.docks, panel.activeDock = .ok dock) ∧
        panel.headerHeight = later.config.headerHeight ∧
        panel.dropEdgeFraction = later.config.dropEdgeFraction) ∧
      (∀ area ∈ later.areas, ∀ split ∈ area.split?, split.children ≠ []) ∧
      ∀ area ∈ later.areas, ∀ split ∈ area.split?, 2 ≤ split.children.length := by
  have counts : (decode oversized none .standard).result.toOption.map (fun ws =>
      (ws.areas.filterMap Area.split?).map fun split => split.children.length) = some [2] := by
    decide +kernel
  cases read : (decode oversized none .standard).result with
  | error error =>
    rw [read] at counts
    cases counts
  | ok ws =>
    rw [read] at counts
    have several : ∀ area ∈ ws.areas, ∀ split ∈ area.split?, 2 ≤ split.children.length := by
      intro area listed split same
      have member : split.children.length ∈ [2] := by
        rw [← Option.some.inj counts]
        exact List.mem_map_of_mem (List.mem_filterMap.mpr ⟨area, listed, same⟩)
      exact Nat.le_of_eq (List.mem_singleton.mp member).symm
    obtain ⟨panels, splits, branching⟩ := trees_stay_well_formed ws (.loaded read) [
      .splitBy .horizontal ⟨2⟩ ⟨⟨4⟩, .null, none⟩ true none,
      .removeDock ⟨2⟩, .press ⟨1, 1⟩, .removeDock ⟨1⟩]
    exact ⟨ws, rfl, several, panels, splits, branching several⟩

end DockLayout.Workspace
