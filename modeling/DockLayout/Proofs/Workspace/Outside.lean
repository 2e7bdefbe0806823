import DockLayout.Proofs.Workspace.HitTest
import DockLayout.Proofs.Workspace.Targets

/-!
# Presses beside the workspace

A boundary is grabbed by a band of fixed thickness, which comes before the areas it
separates. Nobody asks whether the workspace contains the point, so a press beside the
workspace starts a drag where the band of a boundary of the root sticks out. Without
rounding nothing else can be met there, and nothing at all exactly if the boundaries keep
half the thickness of a band away from the edges.
-/

set_option autoImplicit false

namespace DockLayout

/-! ## Bands -/

section Bands

variable {K : Type} [Scalar K]

theorem Partition.sizerAt?_isSome (frame : Partition K) (p : Point K) :
    (frame.sizerAt? p).isSome = true ↔ ∃ ratio ∈ frame.ratios.dropLast,
      p ∈ frame.rect.band frame.direction (sizerThickness K) ratio := by
  rw [sizerAt?, List.findIdx?_isSome, sizers, Rect.bands, List.any_map, List.any_eq_true]
  simp only [Function.comp_apply, decide_eq_true_eq]

namespace Area

def sizerAt? (area : Area K) (p : Point K) : Option DragTarget :=
  area.split?.bind fun split => (split.sizerAt? p).map fun index =>
    .sizer split.handle index split.direction

theorem dragTarget?_of_missed {area : Area K} {p : Point K}
    (tabs : ∀ panel, area = .container panel → p ∉ panel.header)
    (parts : ∀ split ∈ area.split?, ∀ child ∈ split.children, p ∉ child.rect) :
    area.dragTarget? p = area.sizerAt? p := by
  cases area with
  | container panel =>
    rw [dragTarget?, Container.dragTarget?, if_neg (tabs panel rfl)]
    rfl
  | split frame children =>
    have missed : (children.find? fun child => p ∈ child.rect) = none := by
      rw [List.find?_eq_none]
      intro child listed inside
      exact parts ⟨frame, children⟩ rfl child listed (of_decide_eq_true inside)
    rw [dragTarget?, dragTargetIn_eq, missed]
    cases grabbed : frame.sizerAt? p <;> simp [sizerAt?, split?, grabbed]

end Area

end Bands

namespace Rect

variable {r : Rect ℚ} {direction : Direction} {thickness ratio : ℚ} {p : Point ℚ}

theorem mem_band :
    p ∈ r.band direction thickness ratio ↔
      (r.origin direction + r.extent direction * ratio - thickness / 2 ≤ p.along direction ∧
        p.along direction <
          r.origin direction + r.extent direction * ratio - thickness / 2 + thickness) ∧
      (r.origin direction.flip ≤ p.along direction.flip ∧
        p.along direction.flip < r.origin direction.flip + r.extent direction.flip) := by
  have two : (2.0 : ℚ) = 2 := by norm_num
  rw [mem_iff_along direction]
  cases direction <;> simp only [band, origin, extent, Direction.flip, two]

/-- A band lies in the rectangle exactly if its boundary is half its thickness away from
both edges. -/
theorem band_subset_iff (thick : 0 < thickness) (across : 0 < r.extent direction.flip) :
    (∀ p, p ∈ r.band direction thickness ratio → p ∈ r) ↔
      thickness / 2 ≤ r.extent direction * ratio ∧
        r.extent direction * ratio + thickness / 2 ≤ r.extent direction := by
  constructor
  · intro inside
    have along : Set.Ico (r.origin direction + r.extent direction * ratio - thickness / 2)
        (r.origin direction + r.extent direction * ratio - thickness / 2 + thickness) ⊆
          Set.Ico (r.origin direction) (r.origin direction + r.extent direction) := by
      intro position within
      -- of the points of the band at this position, take the one at the near edge across
      obtain ⟨p, here, edge⟩ : ∃ p : Point ℚ, p.along direction = position ∧
          p.along direction.flip = r.origin direction.flip := by
        cases direction
        · exact ⟨⟨r.x, position⟩, rfl, rfl⟩
        · exact ⟨⟨position, r.y⟩, rfl, rfl⟩
      have near : p ∈ r.band direction thickness ratio := by
        rw [mem_band, here, edge]
        exact ⟨within, le_rfl, by linarith⟩
      have whole := ((mem_iff_along direction).mp (inside p near)).1
      rwa [here] at whole
    obtain ⟨first, last⟩ := (Set.Ico_subset_Ico_iff (by linarith)).mp along
    constructor <;> linarith
  · rintro ⟨first, last⟩ p near
    obtain ⟨⟨above, below⟩, beside⟩ := mem_band.mp near
    refine (mem_iff_along direction).mpr ⟨⟨?_, ?_⟩, beside⟩ <;> linarith

end Rect

/-! ## Exact containers -/

theorem Container.mem_rect_of_mem_header {panel : Container ℚ} {p : Point ℚ}
    (strip : p ∈ panel.header) : p ∈ panel.rect := by
  obtain ⟨across, above, below⟩ := Rect.mem_iff.mp strip
  change p.y < panel.rect.y + lesser panel.headerHeight panel.rect.height at below
  rw [lesser_eq_min] at below
  have capped := min_le_right panel.headerHeight panel.rect.height
  exact Rect.mem_iff.mpr ⟨across, above, by linarith⟩

/-- Outside an exact tree there is nothing to drag but the boundaries of its root. -/
theorem Area.Sound.dragTarget?_of_not_mem {config : Config ℚ} {next : Int} {area : Area ℚ}
    {p : Point ℚ} (sound : area.Sound Regime.ordered config next) (outside : p ∉ area.rect) :
    area.dragTarget? p = area.sizerAt? p := by
  apply Area.dragTarget?_of_missed
  · rintro panel rfl strip
    exact outside (Container.mem_rect_of_mem_header strip)
  · intro split same child listed inside
    cases area with
    | container panel => cases same
    | split frame children =>
      cases same
      have elsewhere : p ∉ frame.rect := outside
      have none := countP_children sound p
      rw [if_neg elsewhere, List.countP_eq_zero] at none
      exact none child listed (decide_eq_true inside)

namespace Workspace

/-! ## What a press beside the workspace meets -/

section Root

variable {K : Type}

def rootSplit? (ws : Workspace K) : Option (Split K) := ws.root.bind Area.split?

def rootSizer? [Scalar K] (ws : Workspace K) (p : Point K) : Option DragTarget :=
  ws.root.bind fun root => root.sizerAt? p

theorem rootSizer?_eq [Scalar K] (ws : Workspace K) (p : Point K) :
    ws.rootSizer? p = ws.rootSplit?.bind fun split => (split.sizerAt? p).map fun index =>
      .sizer split.handle index split.direction :=
  (Option.bind_assoc ws.root _ _).symm

end Root

/-- Every boundary of the root is half the thickness of a band away from both edges, so
that none of the bands sticks out. -/
def KeepsBandsInside (ws : Workspace ℚ) : Prop :=
  ∀ split ∈ ws.rootSplit?, 0 < ws.rect.extent split.direction.flip →
    ∀ ratio ∈ split.ratios.dropLast,
      sizerThickness ℚ / 2 ≤ ws.rect.extent split.direction * ratio ∧
        ws.rect.extent split.direction * ratio + sizerThickness ℚ / 2 ≤
          ws.rect.extent split.direction

/-- Something beside the workspace can be met that is none of its boundaries. -/
inductive Strays (ws : Workspace Float) (p : Point Float) : Prop
  /-- The part of a child was rounded beyond the whole. -/
  | part {split : Split Float} {part : Rect Float} (rooted : ws.rootSplit? = some split)
      (cut : part ∈ ws.rect.cut split.direction split.ratios) (inside : p ∈ part)
  /-- The workspace has no lower edge, but the strip of tabs has one. -/
  | strip {panel : Container Float} (rooted : ws.root = some (.container panel))
      (bottomless : ws.rect.height.isNaN = true) (inside : p ∈ panel.header)

/-- Outside a workspace there is nothing to drag but the boundaries of the root, unless
something sticks out. -/
theorem dragTarget?_of_not_strays {ws : Workspace Float} (reachable : ws.Reachable)
    {p : Point Float} (outside : p ∉ ws.rect) (within : ¬ ws.Strays p) :
    ws.dragTarget? p = ws.rootSizer? p := by
  cases rooted : ws.root with
  | none => rw [dragTarget?, rootSizer?, rooted, Option.bind_none, Option.bind_none]
  | some root =>
    obtain ⟨sound, place⟩ := reachable.sound.tree root rooted
    rw [dragTarget?, rootSizer?, rooted, Option.bind_some, Option.bind_some]
    apply Area.dragTarget?_of_missed
    · rintro panel rfl strip
      have lower := Container.mem_rect_of_header strip
      rw [show panel.rect = ws.rect from place] at lower
      apply within
      exact .strip rooted (by_contra fun number => outside (lower.mpr (eq_false_of_ne_true number)))
        strip
    · intro split same child listed inside
      cases root with
      | container panel => cases same
      | split frame children =>
        cases same
        have top : ws.rootSplit? = some ⟨frame, children⟩ := by rw [rootSplit?, rooted]; rfl
        have part := List.mem_map_of_mem (f := Area.rect) listed
        cases sound with
        | split ratios room placed known each =>
          rw [placed, show frame.rect = ws.rect from place] at part
          exact within (.part top part inside)

theorem dragTarget?_eq_rootSizer? {ws : Workspace ℚ} (reachable : ws.Reachable) {p : Point ℚ}
    (outside : p ∉ ws.rect) : ws.dragTarget? p = ws.rootSizer? p := by
  cases rooted : ws.root with
  | none => rw [dragTarget?, rootSizer?, rooted, Option.bind_none, Option.bind_none]
  | some root =>
    obtain ⟨sound, place⟩ := reachable.ordered.tree root rooted
    rw [← place] at outside
    rw [dragTarget?, rootSizer?, rooted, Option.bind_some, Option.bind_some]
    exact sound.dragTarget?_of_not_mem outside

theorem rect_of_rootSplit? {ws : Workspace ℚ} (reachable : ws.Reachable) {split : Split ℚ}
    (rooted : ws.rootSplit? = some split) : split.rect = ws.rect := by
  obtain ⟨root, present, frame⟩ := Option.bind_eq_some_iff.mp rooted
  obtain ⟨-, place⟩ := reachable.sound.tree root present
  cases root with
  | container panel => cases frame
  | split frame children =>
    cases frame
    exact place

/-- No press outside meets anything exactly if no band of the root sticks out. -/
theorem dragTarget?_eq_none_iff {ws : Workspace ℚ} (reachable : ws.Reachable) :
    (∀ p, p ∉ ws.rect → ws.dragTarget? p = none) ↔ ws.KeepsBandsInside := by
  have thick : 0 < sizerThickness ℚ := by decide +kernel
  have met : ∀ split, ws.rootSplit? = some split → ∀ p, p ∉ ws.rect →
      (ws.dragTarget? p = none ↔ ∀ ratio ∈ split.ratios.dropLast,
        p ∉ ws.rect.band split.direction (sizerThickness ℚ) ratio) := by
    intro split rooted p outside
    have bands := split.toPartition.sizerAt?_isSome p
    rw [rect_of_rootSplit? reachable rooted] at bands
    rw [dragTarget?_eq_rootSizer? reachable outside, rootSizer?_eq, rooted, Option.bind_some,
      Option.map_eq_none_iff, ← Option.not_isSome_iff_eq_none, bands]
    simp only [not_exists, not_and]
  constructor
  · intro quiet split rooted across ratio boundary
    rw [← Rect.band_subset_iff thick across]
    intro p near
    by_contra outside
    exact (met split rooted p outside).mp (quiet p outside) ratio boundary near
  · intro keeps p outside
    cases rooted : ws.rootSplit? with
    | none =>
      rw [dragTarget?_eq_rootSizer? reachable outside, rootSizer?_eq, rooted, Option.bind_none]
    | some split =>
      rw [met split rooted p outside]
      intro ratio boundary near
      obtain ⟨-, above, below⟩ := Rect.mem_band.mp near
      have across : 0 < ws.rect.extent split.direction.flip := by linarith
      have far := keeps split rooted across ratio boundary
      exact outside ((Rect.band_subset_iff thick across).mpr far p near)

end Workspace

namespace Session

variable {K : Type} [Scalar K]

/-- A session ignores a press while a gesture goes on and where there is nothing to
drag. -/
theorem press_eq_quiet_iff {s : Session K} {p : Point K} :
    s.press p = .quiet s false ↔ s.gesture ≠ none ∨ s.workspace.dragTarget? p = none := by
  rcases s.press_cases p with ⟨nothing, ignored⟩ | ⟨target, idle, grabbed, started⟩
  · exact iff_of_true ignored nothing
  · rw [started, idle, grabbed]
    exact iff_of_false nofun nofun

theorem press_beside {s : Session Float} (reachable : s.Reachable) {p : Point Float}
    (outside : p ∉ s.workspace.rect) (within : ¬ s.workspace.Strays p) :
    s.workspace.dragTarget? p = s.workspace.rootSizer? p ∧
      (s.press p = .quiet s false ↔ s.gesture ≠ none ∨ s.workspace.rootSizer? p = none) := by
  have met := Workspace.dragTarget?_of_not_strays ⟨s, reachable, rfl⟩ outside within
  exact ⟨met, met ▸ press_eq_quiet_iff⟩

theorem presses_beside_quiet_iff {s : Session ℚ} (reachable : s.Reachable)
    (idle : s.gesture = none) :
    (∀ p, p ∉ s.workspace.rect → s.press p = .quiet s false) ↔ s.workspace.KeepsBandsInside := by
  simp only [press_eq_quiet_iff, idle, ne_eq, not_true_eq_false, false_or]
  exact Workspace.dragTarget?_eq_none_iff ⟨s, reachable, rfl⟩

/-- A press beside the workspace meets a boundary of the root or nothing, unless the part
of a child was rounded beyond the whole or the workspace has no lower edge. Without
rounding there is no exception, and such presses start nothing exactly if all bands of the
root are inside. -/
theorem press_outside_meets_only_bands (s : Session Float) (reachable : s.Reachable) :
    (∀ p, p ∉ s.workspace.rect → ¬ s.workspace.Strays p →
      s.workspace.dragTarget? p = s.workspace.rootSizer? p ∧
        (s.press p = .quiet s false ↔ s.gesture ≠ none ∨ s.workspace.rootSizer? p = none)) ∧
    ∀ exact : Session ℚ, exact.Reachable →
      (∀ p, p ∉ exact.workspace.rect →
        exact.workspace.dragTarget? p = exact.workspace.rootSizer? p) ∧
      (exact.gesture = none →
        ((∀ p, p ∉ exact.workspace.rect → exact.press p = .quiet exact false) ↔
          exact.workspace.KeepsBandsInside)) := by
  constructor
  · intro p outside within
    exact press_beside reachable outside within
  · intro exact exactly
    have ws : exact.workspace.Reachable := ⟨exact, exactly, rfl⟩
    exact ⟨fun p => Workspace.dragTarget?_eq_rootSizer? ws, presses_beside_quiet_iff exactly⟩

def columns (rect : Rect K) (share : K) : Session K :=
  let dock (value : Int) : Dock K := ⟨⟨value⟩, .null, none⟩
  (start (.empty rect .standard)).run [
    .placeFirst (dock 1),
    .splitBy .vertical ⟨1⟩ (dock 2) false (some share)]

theorem columns_reachable (rect : Rect K) (share : K) : (columns rect share).Reachable :=
  ⟨_, _, .empty _ _, rfl⟩

/-- The first column is as narrow as can be. -/
def narrow : Session Float := columns ⟨0.0, 0.0, 100.0, 100.0⟩ 0.0

/-- On doubles the second column ends behind the workspace. -/
def rounded : Session Float := columns ⟨0.0, 0.0, 1000.0, 800.0⟩ 0.41

def exactlyNarrow : Session ℚ := columns ⟨0, 0, 100, 100⟩ 0

def exactHalves : Session ℚ := columns ⟨0, 0, 1000, 800⟩ (1 / 2)

/-- The narrow column is grabbed two units to the left of the workspace, and nothing is
three units further on. The tab of a column that was rounded is grabbed at the right edge,
which is outside. Two halves of a large workspace have no such points. -/
theorem press_outside_meets_only_bands_of_columns :
    (narrow.Reachable ∧ narrow.press ⟨-5.0, 50.0⟩ = .quiet narrow false ∧
      ⟨-2.0, 50.0⟩ ∉ narrow.workspace.rect ∧
      narrow.workspace.dragTarget? ⟨-2.0, 50.0⟩ = narrow.workspace.rootSizer? ⟨-2.0, 50.0⟩ ∧
      narrow.workspace.rootSizer? ⟨-2.0, 50.0⟩ = some (.sizer ⟨1⟩ 0 .vertical)) ∧
    (rounded.Reachable ∧ ⟨1000.0, 5.0⟩ ∉ rounded.workspace.rect ∧
      rounded.workspace.dragTarget? ⟨1000.0, 5.0⟩ = some (.tab ⟨2⟩) ∧
      rounded.workspace.Strays ⟨1000.0, 5.0⟩) ∧
    (exactlyNarrow.Reachable ∧
      ∃ p, p ∉ exactlyNarrow.workspace.rect ∧ exactlyNarrow.press p ≠ .quiet exactlyNarrow false) ∧
    exactHalves.Reachable ∧
      ∀ p, p ∉ exactHalves.workspace.rect → exactHalves.press p = .quiet exactHalves false := by
  have narrowReachable : narrow.Reachable := columns_reachable _ _
  have roundedReachable : rounded.Reachable := columns_reachable _ _
  have exactReachable : exactlyNarrow.Reachable := columns_reachable _ _
  have halvesReachable : exactHalves.Reachable := columns_reachable _ _
  obtain ⟨onNarrow, exactly⟩ := press_outside_meets_only_bands narrow narrowReachable
  obtain ⟨onRounded, -⟩ := press_outside_meets_only_bands rounded roundedReachable
  have whenNarrow := (exactly exactlyNarrow exactReachable).2 (by decide +kernel)
  have whenHalves := (exactly exactHalves halvesReachable).2 (by decide +kernel)
  have within : ∀ p, (∀ split ∈ narrow.workspace.rootSplit?,
      ∀ part ∈ narrow.workspace.rect.cut split.direction split.ratios, p ∉ part) →
        ¬ narrow.workspace.Strays p := by
    rintro p missed (⟨rooted, cut, inside⟩ | ⟨-, bottomless, -⟩)
    · exact missed _ rooted _ cut inside
    · exact absurd bottomless (by decide +kernel)
  refine ⟨⟨narrowReachable, ?_, ?_⟩, ⟨roundedReachable, ?_⟩, ⟨exactReachable, ?_⟩,
    halvesReachable, ?_⟩
  · have met := onNarrow ⟨-5.0, 50.0⟩ (by decide +kernel) (within _ (by decide +kernel))
    exact met.2.mpr (.inr (by decide +kernel))
  · have outside : (⟨-2.0, 50.0⟩ : Point Float) ∉ narrow.workspace.rect := by decide +kernel
    have met := onNarrow _ outside (within _ (by decide +kernel))
    exact ⟨outside, met.1, by decide +kernel⟩
  · have outside : (⟨1000.0, 5.0⟩ : Point Float) ∉ rounded.workspace.rect := by decide +kernel
    have tab : rounded.workspace.dragTarget? ⟨1000.0, 5.0⟩ = some (.tab ⟨2⟩) := by decide +kernel
    have noBoundary : rounded.workspace.rootSizer? ⟨1000.0, 5.0⟩ = none := by decide +kernel
    refine ⟨outside, tab, by_contra fun within => ?_⟩
    rw [(onRounded _ outside within).1, noBoundary] at tab
    cases tab
  · have sticksOut : ¬ exactlyNarrow.workspace.KeepsBandsInside := by
      unfold Workspace.KeepsBandsInside
      decide +kernel
    by_contra none
    have quiet : ∀ p, p ∉ exactlyNarrow.workspace.rect →
        exactlyNarrow.press p = .quiet exactlyNarrow false := by
      intro p outside
      by_contra starts
      exact none ⟨p, outside, starts⟩
    exact sticksOut (whenNarrow.mp quiet)
  · apply whenHalves.mpr
    unfold Workspace.KeepsBandsInside
    decide +kernel

end Session

end DockLayout
