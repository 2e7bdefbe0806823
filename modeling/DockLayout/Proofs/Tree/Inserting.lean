import DockLayout.Proofs.Tree.InOrder
import DockLayout.Proofs.Tree.Undoing

/-!
# Going back on an insertion

An area that is inserted before a child takes half of its place, and gives it back when it
is taken out again. The boundaries are those of before, whatever numbers they are, so each
area below the split is handed the rectangle it had.
-/

set_option autoImplicit false

namespace DockLayout.Split

variable {K : Type} [Scalar K] {s : Split K}

theorem upToDate_of_made {children : List (Area K)} {ratios : List K} {direction : Direction}
    {handle : SplitHandle} {rect : Rect K}
    (made : Split.make children ratios direction handle rect = .ok s)
    (each : ∀ child ∈ children, child.UpToDate) : s.toArea.UpToDate := by
  obtain ⟨-, count, rfl⟩ := make_eq_ok made
  have parts : children.length = (rect.cut direction ratios).length := by
    rw [Rect.length_cut, count]
  refine .split (Area.map_rect_resizeEach parts) ?_
  intro child listed
  obtain ⟨origin, present, part, -, rfl⟩ := Area.resizeEach_mem_of_count parts listed
  exact (each origin present).resize part

/-! ## The ratios -/

theorem length_ratiosWith {ratios : List K} {index : Nat} (inside : index < ratios.length) :
    (ratiosWith ratios index).length = ratios.length + 1 :=
  List.length_insertIdx_of_le_length inside.le _

/-- The boundary that was inserted is the one that goes. It is never the last, so the last
one is not set again. -/
theorem ratiosWithout_ratiosWith {ratios : List K} {index : Nat}
    (inside : index < ratios.length) :
    ratiosWithout (ratiosWith ratios index) index = ratios := by
  have rest : (ratiosWith ratios index).eraseIdx index = ratios :=
    List.eraseIdx_insertIdx_self _
  rw [ratiosWithout, rest]
  exact if_neg inside.ne

/-! ## The children -/

def inserted (s : Split K) (index : Nat) (area : Area K) : Split K :=
  relayout { s with
    children := s.children.insertIdx index area
    ratios := ratiosWith s.ratios index }

theorem length_inserted {index : Nat} (inside : index < s.children.length) (area : Area K) :
    (s.inserted index area).children.length = s.children.length + 1 := by
  rw [inserted, relayout, Area.length_resizeEach]
  exact List.length_insertIdx_of_le_length inside.le _

section Inserted

variable {index : Nat} (upToDate : s.toArea.UpToDate) (inside : index < s.children.length)
  (area : Area K)

include upToDate inside

theorem exists_inserted_place :
    ∃ place ∈ s.rect.cut s.direction (ratiosWith s.ratios index),
      (s.inserted index area).children[index]? = some (area.resize place) := by
  have within : index < s.ratios.length := upToDate.count ▸ inside
  have parts : index < (s.rect.cut s.direction (ratiosWith s.ratios index)).length := by
    rw [Rect.length_cut, length_ratiosWith within]
    omega
  refine ⟨_, List.getElem_mem parts, ?_⟩
  have listed : (s.children.insertIdx index area)[index]? = some area := by
    rw [List.getElem?_insertIdx_self, if_pos inside.le]
  exact Area.getElem?_resizeEach listed (List.getElem?_eq_getElem parts)

theorem relayout_without_inserted :
    relayout { s.inserted index area with
      children := (s.inserted index area).children.eraseIdx index
      ratios := ratiosWithout (ratiosWith s.ratios index) index } = s := by
  have within : index < s.ratios.length := upToDate.count ▸ inside
  rw [ratiosWithout_ratiosWith within]
  refine relayout_congr upToDate ?_
  rw [← List.eraseIdx_map, inserted, relayout, Area.map_unplaced_resizeEach, List.eraseIdx_map,
    List.eraseIdx_insertIdx_self]

end Inserted

/-! ## Both edits -/

/-- An area can be inserted before any child of a split that is up to date, and is what is
answered when the child at its position is taken out, at the place it was handed. The
split is then as it was, with its ratios, its children and all rectangles below. -/
theorem removeChild_undoes_insertChild (upToDate : s.toArea.UpToDate) {index : Int}
    (valid : s.HasChild index) (area : Area K) :
    ∃ (larger : Split K) (place : Rect K),
      s.insertChild index area = .quiet larger () ∧
      larger.children.length = s.children.length + 1 ∧
      larger.children[index.toNat]? = some (area.resize place) ∧
      larger.removeChild index = .quiet s (some (area.resize place)) := by
  obtain ⟨position, rfl, inside⟩ := valid.exists_lt
  have count := length_inserted inside area
  have within : position < (s.inserted position area).children.length := by omega
  have several : (s.inserted position area).children.length ≠ 1 := by omega
  obtain ⟨place, -, present⟩ := exists_inserted_place upToDate inside area
  refine ⟨s.inserted position area, place, s.insertChild_eq inside area, count, present, ?_⟩
  have back := relayout_without_inserted upToDate inside area
  rw [removeChild_eq _ within several, present]
  exact congrArg (Outcome.quiet · _) back

def blankPanel : Area Float := .container {
  docks := [], active := 0, rect := .zero, headerHeight := 20.0, dropEdgeFraction := 0.25 }

def columnAreas : List (Area Float) :=
  [(Split.pair .horizontal 0.5 ⟨8⟩ .zero blankPanel blankPanel).toArea, blankPanel]

/-- Two columns with a boundary that is no number. -/
def blurred : Split Float :=
  relayout ⟨⟨⟨7⟩, .vertical, [Double.notANumber, 1.0], ⟨0.0, 0.0, 300.0, 200.0⟩⟩, columnAreas⟩

theorem blurred_made :
    make columnAreas [Double.notANumber, 1.0] .vertical ⟨7⟩ ⟨0.0, 0.0, 300.0, 200.0⟩ =
      .ok blurred :=
  make_of_checked .vertical ⟨7⟩ _ (List.cons_ne_nil _ _) rfl rfl (by decide +kernel)
    (by decide +kernel)

theorem removeChild_undoes_insertChild_of_blurred :
    make columnAreas [Double.notANumber, 1.0] .vertical ⟨7⟩ ⟨0.0, 0.0, 300.0, 200.0⟩ =
      .ok blurred ∧
    blurred.toArea.UpToDate ∧ blurred.HasChild 1 ∧
    ∃ larger place, blurred.insertChild 1 blankPanel = .quiet larger () ∧
      larger.children.length = 3 ∧
      larger.removeChild 1 = .quiet blurred (some (blankPanel.resize place)) := by
  have each : ∀ child ∈ columnAreas, child.UpToDate := by
    intro child listed
    rcases List.mem_cons.mp listed with rfl | alone
    · refine upToDate_of_made (make_of_checked .horizontal ⟨8⟩ .zero (List.cons_ne_nil _ _) rfl
        rfl (by decide +kernel) (by decide +kernel)) ?_
      exact Area.upToDate_of_containers rfl
    · rw [List.mem_singleton.mp alone]
      exact .container _
  have upToDate := upToDate_of_made blurred_made each
  have two : blurred.children.length = 2 := rfl
  have valid : blurred.HasChild 1 := by
    constructor <;> omega
  obtain ⟨larger, place, insertion, count, -, removal⟩ :=
    removeChild_undoes_insertChild upToDate valid blankPanel
  exact ⟨blurred_made, upToDate, valid, larger, place, insertion, by omega, removal⟩

end DockLayout.Split
