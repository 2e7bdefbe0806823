import Mathlib.Algebra.Order.Floor.Ring
import Mathlib.Data.Rat.Floor
import DockLayout.Proofs.Panel.Zone
import DockLayout.Proofs.Plane.Parts

/-!
# The strip of tabs

The docks of a container share the strip of tabs evenly. Without rounding a point of it
lies on exactly one tab, whose number is the whole part of its fraction of the strip times
the number of docks, and the search from the left stops there.
-/

set_option autoImplicit false

namespace DockLayout.Container

/-! ## Even shares -/

theorem length_evenRatios (count : Nat) : (evenRatios count : List ℚ).length = count := by
  simp [evenRatios]

theorem reach_shares (count number : Nat) :
    Rect.reach 0 ((List.range number).map fun index => ((index + 1 : Nat) : ℚ) / count) =
      number / count := by
  induction number with
  | zero => simp [Rect.reach]
  | succ number ih =>
    have onward : (number : ℚ) / count ≤ ((number + 1 : Nat) : ℚ) / count :=
      div_le_div_of_nonneg_right (Nat.cast_le.mpr (Nat.le_succ number)) (Nat.cast_nonneg count)
    rw [List.range_succ, List.map_append, List.map_singleton, Rect.reach_concat, ih,
      max_eq_right onward]

theorem reach_evenRatios {count number : Nat} (within : number ≤ count) :
    Rect.reach 0 ((evenRatios count).take number) = (number : ℚ) / count := by
  rw [evenRatios, ← List.map_take, List.take_range, Nat.min_eq_left within, reach_shares]

variable {panel : Container ℚ} {p : Point ℚ} {number : Nat}

theorem length_tabs (panel : Container ℚ) : panel.tabs.length = panel.docks.length := by
  rw [tabs, Rect.length_cut, length_evenRatios]

theorem getElem?_tabs (valid : number < panel.docks.length) :
    panel.tabs[number]? = some (panel.header.slab .vertical (number / panel.docks.length)
      ((number + 1 : Nat) / panel.docks.length - number / panel.docks.length)) := by
  have inside : number < (evenRatios panel.docks.length : List ℚ).length := by
    rwa [length_evenRatios]
  rw [tabs, Rect.cut, Rect.getElem?_cutFrom inside, reach_evenRatios valid.le,
    reach_evenRatios valid]

/-! ## Points of the strip -/

/-- A point of the strip lies on the tab of a number if that is the whole part of its
fraction of the strip, counted in tabs. -/
theorem mem_tab_iff (strip : p ∈ panel.header) (valid : number < panel.docks.length)
    {tab : Rect ℚ} (present : panel.tabs[number]? = some tab) :
    p ∈ tab ↔
      ⌊panel.docks.length * (p.x - panel.rect.x) / panel.rect.width⌋ = (number : ℤ) := by
  have several : (0 : ℚ) < panel.docks.length := Nat.cast_pos.mpr (Nat.zero_lt_of_lt valid)
  have fraction : panel.header.fraction .vertical p =
      (p.x - panel.rect.x) / panel.rect.width := rfl
  rw [getElem?_tabs valid] at present
  obtain rfl := Option.some.inj present
  rw [Rect.mem_slab_iff_fraction strip, fraction, Int.floor_eq_iff, mul_div_assoc,
    div_le_iff₀' several, lt_div_iff₀' several]
  push_cast
  rfl

theorem exists_number (strip : p ∈ panel.header) (filled : panel.docks ≠ []) :
    ∃ number < panel.docks.length,
      ⌊panel.docks.length * (p.x - panel.rect.x) / panel.rect.width⌋ = (number : ℤ) := by
  have several : (0 : ℚ) < panel.docks.length :=
    Nat.cast_pos.mpr (List.length_pos_of_ne_nil filled)
  obtain ⟨nonneg, below⟩ := Rect.fraction_between strip .vertical
  change 0 ≤ (p.x - panel.rect.x) / panel.rect.width at nonneg
  change (p.x - panel.rect.x) / panel.rect.width < 1 at below
  rw [mul_div_assoc]
  have low := Int.floor_nonneg.mpr (mul_nonneg several.le nonneg)
  obtain ⟨number, same⟩ := Int.eq_ofNat_of_zero_le low
  refine ⟨number, ?_, same⟩
  have high : ⌊(panel.docks.length : ℚ) * ((p.x - panel.rect.x) / panel.rect.width)⌋ <
      panel.docks.length := by
    rw [Int.floor_lt]
    exact mul_lt_of_lt_one_right several below
  rw [same] at high
  exact Int.ofNat_lt.mp high

/-- The search from the left stops at the tab of the number. -/
theorem dragTarget?_of_number (strip : p ∈ panel.header) (valid : number < panel.docks.length)
    (numbered : ⌊panel.docks.length * (p.x - panel.rect.x) / panel.rect.width⌋ = (number : ℤ)) :
    panel.dragTarget? p = some (.tab panel.docks[number].handle) := by
  have all := length_tabs panel
  have inside : number < panel.tabs.length := by omega
  have first : ((panel.docks.zip panel.tabs).find? fun entry => p ∈ entry.2) =
      some (panel.docks[number], panel.tabs[number]) := by
    rw [List.find?_eq_some_iff_getElem]
    have here := (mem_tab_iff strip valid (List.getElem?_eq_getElem inside)).mpr numbered
    refine ⟨decide_eq_true here, number, by simp; omega, List.getElem_zip, ?_⟩
    intro earlier before
    have listed : earlier < panel.docks.length := by omega
    have tabbed : earlier < panel.tabs.length := by omega
    have elsewhere : p ∉ panel.tabs[earlier] := by
      rw [mem_tab_iff strip listed (List.getElem?_eq_getElem tabbed), numbered]
      omega
    simp [elsewhere]
  rw [dragTarget?, if_pos strip, first]
  rfl

/-! ## The strip -/

theorem exists_mem_tabs_iff (filled : panel.docks ≠ []) :
    (∃ tab ∈ panel.tabs, p ∈ tab) ↔ p ∈ panel.header := by
  have whole : Rect.reach 0 (evenRatios panel.docks.length) = 1 := by
    have several : (panel.docks.length : ℚ) ≠ 0 :=
      Nat.cast_ne_zero.mpr (List.length_pos_of_ne_nil filled).ne'
    have all := reach_evenRatios (Nat.le_refl panel.docks.length)
    rwa [List.take_of_length_le (length_evenRatios _).le, div_self several] at all
  rw [tabs, Rect.cut, Rect.exists_mem_cutFrom_iff, whole, sub_zero, Rect.slab_whole]

/-- A press on the strip of tabs takes hold of exactly one tab, and one elsewhere of none.
With the strip in as many equal shares as there are docks, the tab is that of the share the
point lies in. The tabs fill the strip and have no point in common. -/
theorem every_point_of_strip_has_one_tab (panel : Container ℚ) (filled : panel.docks ≠ []) :
    panel.header = ⟨panel.rect.x, panel.rect.y, panel.rect.width,
      min panel.headerHeight panel.rect.height⟩ ∧
    (∀ p, panel.dragTarget? p = none ↔ p ∉ panel.header) ∧
    (∀ p ∈ panel.header, ∃ (number : Nat) (dock : Dock ℚ) (tab : Rect ℚ),
      ⌊panel.docks.length * (p.x - panel.rect.x) / panel.rect.width⌋ = (number : ℤ) ∧
      panel.docks[number]? = some dock ∧ panel.dragTarget? p = some (.tab dock.handle) ∧
      panel.tabs[number]? = some tab ∧ p ∈ tab) ∧
    panel.tabs.length = panel.docks.length ∧
    panel.tabs.Pairwise Rect.Apart ∧
    ∀ p, (∃ tab ∈ panel.tabs, p ∈ tab) ↔ p ∈ panel.header := by
  have all := length_tabs panel
  refine ⟨panel.header_eq, ?_, ?_, all, Rect.pairwise_apart_cutFrom ..,
    fun p => exists_mem_tabs_iff filled⟩
  · intro p
    by_cases strip : p ∈ panel.header
    · obtain ⟨number, valid, numbered⟩ := exists_number strip filled
      rw [dragTarget?_of_number strip valid numbered]
      simp [strip]
    · simp [dragTarget?, strip]
  · intro p strip
    obtain ⟨number, valid, numbered⟩ := exists_number strip filled
    have inside : number < panel.tabs.length := by omega
    have present := List.getElem?_eq_getElem inside
    exact ⟨number, panel.docks[number], panel.tabs[number], numbered,
      List.getElem?_eq_getElem valid, dragTarget?_of_number strip valid numbered, present,
      (mem_tab_iff strip valid present).mpr numbered⟩

/-- A panel with three tabs that is lower than its strip should be. -/
def lowPanel : Container ℚ :=
  ((single ⟨⟨1⟩, .null, none⟩ ⟨-30, 5, 90, 10⟩ 20 (1 / 4)).appendDock
    ⟨⟨2⟩, .null, none⟩).appendDock ⟨⟨3⟩, .null, none⟩

/-- Where two tabs meet, near the end of the strip and right behind it. -/
theorem every_point_of_strip_has_one_tab_of_low :
    lowPanel.docks ≠ [] ∧ lowPanel.header = ⟨-30, 5, 90, 10⟩ ∧
    lowPanel.dragTarget? ⟨0, 5⟩ = some (.tab ⟨2⟩) ∧
    lowPanel.dragTarget? ⟨119 / 2, 14⟩ = some (.tab ⟨3⟩) ∧
    lowPanel.dragTarget? ⟨60, 5⟩ = none ∧
    lowPanel.tabs = [⟨-30, 5, 30, 10⟩, ⟨0, 5, 30, 10⟩, ⟨30, 5, 30, 10⟩] ∧
    lowPanel.tabs.Pairwise Rect.Apart := by
  have filled : lowPanel.docks ≠ [] := by decide
  obtain ⟨strip, elsewhere, here, -, apart, -⟩ := every_point_of_strip_has_one_tab lowPanel filled
  obtain ⟨second, dock, tab, numbered, named, border, -⟩ := here ⟨0, 5⟩ (by decide +kernel)
  obtain ⟨third, last, room, counted, called, near, -⟩ :=
    here ⟨119 / 2, 14⟩ (by decide +kernel)
  obtain rfl : second = 1 := Int.ofNat.inj (numbered.symm.trans (by decide +kernel))
  obtain rfl : third = 2 := Int.ofNat.inj (counted.symm.trans (by decide +kernel))
  obtain rfl := Option.some.inj named
  obtain rfl := Option.some.inj called
  have low : lowPanel.header = ⟨-30, 5, 90, 10⟩ := by
    rw [strip]
    decide +kernel
  refine ⟨filled, low, border, near, ?_, by decide +kernel, apart⟩
  exact (elsewhere ⟨60, 5⟩).mpr (by decide +kernel)

end DockLayout.Container
