import DockLayout.Proofs.Numbers.Exact
import DockLayout.Proofs.Plane.Slab
import DockLayout.Proofs.Tree.Sound
import DockLayout.Tree.HitTest

/-!
# Hit tests on exact trees

Over the rationals the children of a split share out its points. So a point of
an area lies in exactly one of its panels, and the descent through the first
child that contains the point ends there.
-/

set_option autoImplicit false

namespace DockLayout

variable {K : Type}

namespace Area

/-! ## Panels at a point -/

section Panels

variable [Scalar K]

def panelsAt (area : Area K) (p : Point K) : List (Container K) :=
  area.containers.filter fun panel => p ∈ panel.rect

theorem panelsAt_container (panel : Container K) (p : Point K) :
    (container panel).panelsAt p = if p ∈ panel.rect then [panel] else [] := by
  by_cases inside : p ∈ panel.rect <;> simp [panelsAt, inside]

theorem panelsAt_split (frame : Partition K) (children : List (Area K)) (p : Point K) :
    (split frame children).panelsAt p = children.flatMap fun child => child.panelsAt p := by
  rw [panelsAt, containers_split, List.filter_flatMap]
  rfl

theorem flatMap_panelsAt_filter {children : List (Area K)} {p : Point K}
    (outside : ∀ child ∈ children, p ∉ child.rect → child.panelsAt p = []) :
    (children.flatMap fun child => child.panelsAt p) =
      (children.filter fun child => p ∈ child.rect).flatMap fun child => child.panelsAt p := by
  induction children with
  | nil => rfl
  | cons child rest ih =>
    have later := ih fun other listed => outside other (List.mem_cons_of_mem child listed)
    by_cases inside : p ∈ child.rect
    · simp only [List.filter_cons, inside, decide_true, if_true, List.flatMap_cons, later]
    · have nothing := outside child List.mem_cons_self inside
      simp only [List.filter_cons, inside, decide_false, Bool.false_eq_true, if_false,
        List.flatMap_cons, nothing, List.nil_append, later]

end Panels

/-! ## Exact trees -/

namespace Sound

variable {config : Config ℚ} {next : Int} {p : Point ℚ}

/-- Exactly one child contains a point of the split, and none any other point. -/
theorem countP_children {frame : Partition ℚ} {children : List (Area ℚ)}
    (sound : (Area.split frame children).Sound Regime.ordered config next) (p : Point ℚ) :
    (children.countP fun child => p ∈ child.rect) = if p ∈ frame.rect then 1 else 0 := by
  cases sound with
  | split ratios room placed known each =>
    have parts : (frame.rect.cutFrom frame.direction 0 frame.ratios).countP (p ∈ ·) =
        if p ∈ frame.rect.slab frame.direction 0 (frame.ratios.getLastD 0 - 0) then 1 else 0 :=
      Rect.countP_cutFrom (Exact.pairwise_zero ratios) p
    rw [Exact.getLastD_of_ordered ratios, sub_zero, Rect.slab_whole, ← Rect.cut, ← placed,
      List.countP_map] at parts
    exact parts

theorem panelsAt_of_not_mem {area : Area ℚ} (sound : area.Sound Regime.ordered config next)
    (outside : p ∉ area.rect) : area.panelsAt p = [] := by
  induction sound with
  | @container panel shown header edge room =>
    have elsewhere : p ∉ panel.rect := outside
    rw [panelsAt_container, if_neg elsewhere]
  | @split frame children ratios room placed known each ih =>
    have elsewhere : p ∉ frame.rect := outside
    have none := countP_children (.split ratios room placed known each) p
    rw [if_neg elsewhere, List.countP_eq_zero] at none
    rw [panelsAt_split, List.flatMap_eq_nil_iff]
    intro child listed
    apply ih child listed
    simpa using none child listed

theorem queries_of_not_mem {area : Area ℚ} (sound : area.Sound Regime.ordered config next)
    (outside : p ∉ area.rect) : area.dockAt? p = .ok none ∧ area.dropTarget? p = .ok none := by
  cases sound with
  | @container panel shown header edge room =>
    have elsewhere : p ∉ panel.rect := outside
    constructor
    · rw [Area.dockAt?, Container.dockAt?, if_neg elsewhere]
    · rw [Area.dropTarget?, Container.dropTarget?, if_neg elsewhere]
  | @split frame children ratios room placed known each =>
    have elsewhere : p ∉ frame.rect := outside
    have none := countP_children (.split ratios room placed known each) p
    rw [if_neg elsewhere, List.countP_eq_zero] at none
    have missed := List.find?_eq_none.mpr none
    constructor
    · rw [Area.dockAt?, dockIn_eq, missed]
    · rw [Area.dropTarget?, dropTargetIn_eq, missed]

/-- The descent ends in the one panel at the point. -/
theorem exists_panelAt {area : Area ℚ} (sound : area.Sound Regime.ordered config next)
    (inside : p ∈ area.rect) :
    ∃ panel dock, area.panelsAt p = [panel] ∧ panel.activeDock = .ok dock ∧
      area.dockAt? p = .ok (some dock.handle) ∧
      ∃ zone, area.dropTarget? p = .ok (some ⟨dock.handle, zone⟩) := by
  induction sound with
  | @container panel shown header edge room =>
    have here : p ∈ panel.rect := inside
    have active : panel.activeDock = .ok panel.docks[panel.active] := by
      rw [Container.activeDock, List.getElem?_eq_getElem shown]
    refine ⟨panel, panel.docks[panel.active], ?_, active, ?_, ?_⟩
    · rw [panelsAt_container, if_pos here]
    · rw [Area.dockAt?, Container.dockAt?, if_pos here, active]
    · rw [Area.dropTarget?, Container.dropTarget?, if_pos here, active]
      exact ⟨_, rfl⟩
  | @split frame children ratios room placed known each ih =>
    have here : p ∈ frame.rect := inside
    have one := countP_children (.split ratios room placed known each) p
    rw [if_pos here, List.countP_eq_length_filter, List.length_eq_one_iff] at one
    obtain ⟨child, only⟩ := one
    have listed : child ∈ children.filter fun child => p ∈ child.rect := by
      rw [only]
      exact List.mem_singleton_self child
    obtain ⟨present, holds⟩ := List.mem_filter.mp listed
    -- the first child that contains the point is the only one
    have first : (children.find? fun child => p ∈ child.rect) = some child := by
      rw [← List.head?_filter, only]
      rfl
    obtain ⟨panel, dock, panels, active, shown, target⟩ :=
      ih child present (of_decide_eq_true holds)
    refine ⟨panel, dock, ?_, active, ?_, ?_⟩
    · have nowhere : ∀ other ∈ children, p ∉ other.rect → other.panelsAt p = [] := by
        intro other member elsewhere
        exact panelsAt_of_not_mem (each other member) elsewhere
      rw [panelsAt_split, flatMap_panelsAt_filter nowhere, only, List.flatMap_singleton, panels]
    · rw [Area.dockAt?, dockIn_eq, first]
      exact shown
    · rw [Area.dropTarget?, dropTargetIn_eq, first]
      exact target

theorem dockAt?_of_mem {area : Area ℚ} (sound : area.Sound Regime.ordered config next)
    {panel : Container ℚ} {dock : Dock ℚ} (listed : panel ∈ area.containers)
    (inside : p ∈ panel.rect) (shown : panel.activeDock = .ok dock) :
    area.dockAt? p = .ok (some dock.handle) := by
  have here : panel ∈ area.panelsAt p := List.mem_filter.mpr ⟨listed, decide_eq_true inside⟩
  by_cases within : p ∈ area.rect
  · obtain ⟨only, active, panels, same, answer, -⟩ := sound.exists_panelAt within
    rw [panels, List.mem_singleton] at here
    rw [← here, shown] at same
    rw [answer, Except.ok.inj same]
  · rw [sound.panelsAt_of_not_mem within] at here
    exact absurd here List.not_mem_nil

end Sound

end Area

end DockLayout
