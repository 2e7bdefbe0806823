import DockLayout.Proofs.Panel.Tabs
import DockLayout.Proofs.Panel.Zone

/-!
# Where a drop goes

A drop into a container is about the dock that is shown there. On the strip of tabs, and
far enough from all edges, it is one into the middle, and elsewhere one at the nearest
edge. The distances are quotients, which exist because a rectangle that contains a point has
some width and height.
-/

set_option autoImplicit false

namespace DockLayout

def quotient? (dividend divisor : ℚ) : Option ℚ :=
  if divisor = 0 then none else some (dividend / divisor)

theorem quotient?_eq {divisor : ℚ} (nonzero : divisor ≠ 0) (dividend : ℚ) :
    quotient? dividend divisor = some (dividend / divisor) := if_neg nonzero

namespace Container

variable {panel : Container ℚ} {p : Point ℚ}

/-- The distances to the four edges, unless a quotient that they are made of is missing. -/
def edgeDistances? (panel : Container ℚ) (p : Point ℚ) : Option (List (ℚ × DropZone)) := do
  let across ← quotient? (p.x - panel.rect.x) panel.rect.width
  let down ← quotient? (p.y - panel.rect.y) panel.rect.height
  return [(across, .left), (1 - across, .right), (down, .top), (1 - down, .bottom)]

theorem edgeDistances?_of_mem (inside : p ∈ panel.rect) :
    panel.edgeDistances? p = some (panel.edgeDistances p) := by
  have width : 0 < panel.rect.width := Rect.extent_pos_of_mem inside .vertical
  have height : 0 < panel.rect.height := Rect.extent_pos_of_mem inside .horizontal
  rw [edgeDistances?, quotient?_eq width.ne', quotient?_eq height.ne']
  rfl

theorem not_center_of_mem {entry : ℚ × DropZone} (listed : entry ∈ panel.edgeDistances p) :
    entry.2 ≠ .center := by
  rw [edgeDistances_eq] at listed
  intro middle
  simp only [List.mem_cons, List.not_mem_nil, or_false] at listed
  rcases listed with rfl | rfl | rfl | rfl <;> cases middle

/-- A drop below the strip of tabs goes to the middle exactly if no edge is near enough. -/
theorem bodyZone_eq_center_iff :
    panel.bodyZone p = .center ↔
      ∀ entry ∈ panel.edgeDistances p, panel.dropEdgeFraction ≤ entry.1 := by
  obtain ⟨chosen, nearest, zone⟩ := exists_nearest panel p
  rw [zone]
  by_cases close : chosen.1 < panel.dropEdgeFraction
  · rw [if_pos close]
    refine iff_of_false (not_center_of_mem nearest.mem) ?_
    intro far
    exact absurd close (not_lt.mpr (far chosen nearest.mem))
  · rw [if_neg close]
    refine iff_of_true rfl ?_
    intro entry listed
    exact (not_lt.mp close).trans (nearest.least entry listed)

/-- Otherwise it goes to the first of the nearest edges. -/
theorem bodyZone_nearest (edge : panel.bodyZone p ≠ .center) :
    ∃ distance, FirstNearest (panel.edgeDistances p) (distance, panel.bodyZone p) ∧
      distance < panel.dropEdgeFraction := by
  obtain ⟨chosen, nearest, zone⟩ := exists_nearest panel p
  rw [zone] at edge ⊢
  by_cases close : chosen.1 < panel.dropEdgeFraction
  · rw [if_pos close]
    exact ⟨chosen.1, nearest, close⟩
  · rw [if_neg close] at edge
    exact absurd rfl edge

/-- A drop outside a container is none, and no other fails to find a place. The middle
takes what is dropped on the strip of tabs or away from all edges, and the nearest edge
takes the rest; of equally near ones it is the first of left, right, top and bottom. -/
theorem drop_goes_to_nearest_edge (panel : Container ℚ) (settled : panel.Settled)
    (filled : panel.docks ≠ []) (p : Point ℚ) :
    panel.header = ⟨panel.rect.x, panel.rect.y, panel.rect.width,
      min panel.headerHeight panel.rect.height⟩ ∧
    (panel.dropTarget? p = .ok none ↔ p ∉ panel.rect) ∧
    (p ∈ panel.rect →
      panel.edgeDistances? p = some (panel.edgeDistances p) ∧
      ∃ dock zone, panel.activeDock = .ok dock ∧
        panel.dropTarget? p = .ok (some ⟨dock.handle, zone⟩) ∧
        (zone = .center ↔ p ∈ panel.header ∨
          ∀ entry ∈ panel.edgeDistances p, panel.dropEdgeFraction ≤ entry.1) ∧
        (zone ≠ .center → ∃ distance, FirstNearest (panel.edgeDistances p) (distance, zone) ∧
          distance < panel.dropEdgeFraction)) := by
  by_cases inside : p ∈ panel.rect
  case neg =>
    have nowhere : panel.dropTarget? p = .ok none := by rw [dropTarget?, if_neg inside]
    exact ⟨panel.header_eq, iff_of_true nowhere inside, fun within => absurd within inside⟩
  have valid := settled.shown filled
  have shown : panel.activeDock = .ok panel.docks[panel.active] := by
    rw [activeDock, List.getElem?_eq_getElem valid]
  have aimed : panel.dropTarget? p = .ok (some ⟨panel.docks[panel.active].handle,
      if p ∈ panel.header then .center else panel.bodyZone p⟩) := by
    rw [dropTarget?, if_pos inside, shown]
  refine ⟨panel.header_eq, ?_, ?_⟩
  · rw [aimed]
    exact iff_of_false nofun (not_not.mpr inside)
  · intro _
    refine ⟨edgeDistances?_of_mem inside, _, _, shown, aimed, ?_, ?_⟩
    · by_cases strip : p ∈ panel.header
      · rw [if_pos strip]
        exact iff_of_true rfl (.inl strip)
      · rw [if_neg strip, bodyZone_eq_center_iff, or_iff_right strip]
    · by_cases strip : p ∈ panel.header
      · rw [if_pos strip]
        exact fun edge => absurd rfl edge
      · rw [if_neg strip]
        exact bodyZone_nearest

def square : Container ℚ :=
  (single ⟨⟨1⟩, .null, none⟩ ⟨0, 0, 100, 100⟩ 20 (1 / 4)).appendDock ⟨⟨2⟩, .null, none⟩

theorem square_settled : square.Settled ∧ square.docks ≠ [] :=
  ⟨⟨by decide, by decide⟩, by decide⟩

/-- In the lower left corner the distances to two edges are the same. A point near the top is
on the strip of tabs. -/
theorem drop_goes_to_nearest_edge_of_square :
    square.Settled ∧ square.docks ≠ [] ∧ square.header = ⟨0, 0, 100, 20⟩ ∧
    square.dropTarget? ⟨50, 10⟩ = .ok (some ⟨⟨2⟩, .center⟩) ∧
    square.dropTarget? ⟨10, 90⟩ = .ok (some ⟨⟨2⟩, .left⟩) ∧
    square.edgeDistances? ⟨10, 90⟩ =
      some [(1 / 10, .left), (9 / 10, .right), (9 / 10, .top), (1 / 10, .bottom)] ∧
    (∃ distance, FirstNearest (square.edgeDistances ⟨10, 90⟩) (distance, .left) ∧
      distance < 1 / 4) ∧
    square.dropTarget? ⟨100, 50⟩ = .ok none := by
  obtain ⟨settled, filled⟩ := square_settled
  have corner : (⟨10, 90⟩ : Point ℚ) ∈ square.rect := by decide +kernel
  have outside : (⟨100, 50⟩ : Point ℚ) ∉ square.rect := by decide +kernel
  have aimed : square.dropTarget? ⟨10, 90⟩ = .ok (some ⟨⟨2⟩, .left⟩) :=
    Success.toOption_eq_some.mp (by decide +kernel)
  obtain ⟨strip, -, here⟩ := drop_goes_to_nearest_edge square settled filled ⟨10, 90⟩
  obtain ⟨-, dock, zone, -, same, -, nearest⟩ := here corner
  rw [aimed] at same
  obtain ⟨-, rfl⟩ := DropTarget.mk.inj (Option.some.inj (Except.ok.inj same))
  have height : square.header = ⟨0, 0, 100, 20⟩ := by
    rw [strip]
    decide +kernel
  have onStrip : (⟨50, 10⟩ : Point ℚ) ∈ square.header := by decide +kernel
  have within : (⟨50, 10⟩ : Point ℚ) ∈ square.rect := by decide +kernel
  have shown : square.activeDock = .ok ⟨⟨2⟩, .null, none⟩ := rfl
  obtain ⟨-, -, there⟩ := drop_goes_to_nearest_edge square settled filled ⟨50, 10⟩
  obtain ⟨-, front, middle, active, center, inMiddle, -⟩ := there within
  obtain rfl := inMiddle.mpr (.inl onStrip)
  obtain rfl := Except.ok.inj (shown.symm.trans active)
  exact ⟨settled, filled, height, center, aimed, by decide +kernel, nearest nofun,
    (drop_goes_to_nearest_edge square settled filled ⟨100, 50⟩).2.1.mpr outside⟩

end Container

end DockLayout
