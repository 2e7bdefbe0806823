import DockLayout.Proofs.Numbers.Exact
import DockLayout.Proofs.Workspace.Reachable

/-!
# The splits of a reachable workspace

Whatever a caller does, the children of every split lie where its ratios put
them, and the root fills the workspace. Over the rationals the ratios of every
split are fractions in order that end with one, however a run has moved,
removed, merged or read them.
-/

set_option autoImplicit false

namespace DockLayout.Workspace

variable {K : Type} [Scalar K]

theorem Sound.of_mem_areas {regime : Regime K} {ws : Workspace K} (sound : ws.Sound regime)
    {area : Area K} (listed : area ∈ ws.areas) :
    area.Sound regime ws.config ws.nextSplit := by
  rw [areas] at listed
  cases same : ws.root with
  | none => simp [same] at listed
  | some root =>
    simp only [same, Area.visit_eq] at listed
    exact (sound.tree root same).1.of_mem_preorder listed

/-! ## Rectangles -/

theorem rects_never_stale (ws : Workspace K) (reachable : ws.Reachable) :
    (∀ root ∈ ws.root, root.rect = ws.rect) ∧
      ∀ area ∈ ws.areas, ∀ split ∈ area.split?,
        split.children.map Area.rect = split.rect.cut split.direction split.ratios ∧
          split.ratios.length = split.children.length := by
  have sound := reachable.sound
  constructor
  · intro root same
    exact (sound.tree root same).2
  · intro area listed split same
    have whole := sound.of_mem_areas listed
    cases area with
    | container panel => cases same
    | split frame children =>
      cases same
      have count := whole.count
      cases whole with
      | split ratios room placed known each => exact ⟨placed, count.symm⟩

/-- Two panels, the first of which was written with seven times the width of both. -/
def oversized : Json ℚ :=
  let panel (handle : Int) : Json ℚ := .obj [
    (Word.type, .str Word.container),
    (Word.docks, .arr [.obj [(Word.handle, .int handle), (Word.pluginName, .null)]])]
  .obj [
    (Word.version, .int 1),
    (Word.root, .obj [
      (Word.type, .str Word.split),
      (Word.handle, .int 3),
      (Word.direction, .str Direction.vertical.name),
      (Word.ratios, .arr [.real 7, .int 1]),
      (Word.children, .arr [panel 1, panel 2])])]

/-- The layout is read without a rectangle, resized to a negative width, split and
merged again. -/
theorem rects_never_stale_of_oversized :
    ∃ ws : Workspace ℚ, (decode oversized none .standard).result = .ok ws ∧
      let later := ((Session.start ws).run [
        .updateRect ⟨0, 0, -1000, 800⟩,
        .splitBy .horizontal ⟨2⟩ ⟨⟨4⟩, .null, none⟩ true (some 3),
        .removeDock ⟨1⟩]).workspace
      later.Reachable ∧ (∀ root ∈ later.root, root.rect = later.rect) ∧
        ∀ area ∈ later.areas, ∀ split ∈ area.split?,
          split.children.map Area.rect = split.rect.cut split.direction split.ratios ∧
            split.ratios.length = split.children.length := by
  have accepted : (decode oversized none .standard).result.isOk = true := by decide +kernel
  cases read : (decode oversized none .standard).result with
  | error error =>
    rw [read] at accepted
    cases accepted
  | ok ws =>
    refine ⟨ws, rfl, ?_⟩
    have reachable : ((Session.start ws).run [
        .updateRect ⟨0, 0, -1000, 800⟩,
        .splitBy .horizontal ⟨2⟩ ⟨⟨4⟩, .null, none⟩ true (some 3),
        .removeDock ⟨1⟩]).workspace.Reachable := ⟨_, ⟨ws, _, .loaded read, rfl⟩, rfl⟩
    exact ⟨reachable, rects_never_stale _ reachable⟩

/-! ## Ratios -/

/-- Over the rationals every argument and every layout that can be read is
admitted. -/
theorem ordered_unconditional : (Regime.ordered : Regime ℚ).Unconditional where
  room := fun _ _ => trivial
  share := fun _ => trivial
  shift := fun _ => ⟨trivial, trivial⟩
  pointer := fun _ => ⟨trivial, trivial⟩
  reading := Exact.ordered_of_made

theorem Reachable.ordered {ws : Workspace ℚ} (reachable : ws.Reachable) :
    ws.Sound Regime.ordered :=
  reachable.sound_of ordered_unconditional

/-- The ratios of a split are as many as its children, in order, between zero and
one, and the last one is one. -/
theorem ratios_stay_ordered (ws : Workspace ℚ) (reachable : ws.Reachable) :
    ∀ area ∈ ws.areas, ∀ split ∈ area.split?,
      split.ratios.length = split.children.length ∧ split.ratios.Pairwise (· ≤ ·) ∧
        (∀ ratio ∈ split.ratios, 0 ≤ ratio ∧ ratio ≤ 1) ∧ split.ratios.getLast? = some 1 := by
  intro area listed split same
  have whole := reachable.ordered.of_mem_areas listed
  cases area with
  | container panel => cases same
  | split frame children =>
    cases same
    have count := whole.count
    cases whole with
    | split ratios room placed known each => exact ⟨count.symm, Exact.ordered_iff.mp ratios⟩

/-- Three columns in a workspace of negative width. Closing the panel below the
first two has merged two splits, whose children have negative extents. -/
def mirrored : Workspace ℚ :=
  let dock (value : Int) : Dock ℚ := ⟨⟨value⟩, .null, none⟩
  ((Session.start (.empty ⟨0, 0, -1000, 800⟩ .standard)).run [
    .placeFirst (dock 1),
    .splitBy .vertical ⟨1⟩ (dock 2) false none,
    .splitBy .horizontal ⟨1⟩ (dock 3) false none,
    .splitBy .vertical ⟨1⟩ (dock 4) false (some (-2)),
    .changeRatio ⟨1⟩ 0 ⟨100, 0⟩,
    .removeDock ⟨3⟩]).workspace

theorem mirrored_reachable : mirrored.Reachable := ⟨_, ⟨_, _, .empty _ _, rfl⟩, rfl⟩

/-- The merged children share the place evenly, since their extents do not add up
to anything positive. -/
theorem ratios_stay_ordered_of_mirrored :
    mirrored.Reachable ∧
    (mirrored.root.bind Area.split?).map (·.ratios) = some [3 / 10, 3 / 5, 1] ∧
    ∀ area ∈ mirrored.areas, ∀ split ∈ area.split?,
      split.ratios.length = split.children.length ∧ split.ratios.Pairwise (· ≤ ·) ∧
        (∀ ratio ∈ split.ratios, 0 ≤ ratio ∧ ratio ≤ 1) ∧ split.ratios.getLast? = some 1 := by
  have merged : (mirrored.root.bind Area.split?).map (·.ratios) = some [3 / 10, 3 / 5, 1] := by
    decide +kernel
  exact ⟨mirrored_reachable, merged, ratios_stay_ordered mirrored mirrored_reachable⟩

end DockLayout.Workspace
