import Mathlib.Logic.Basic
import DockLayout.Tree.Split

/-!
# Refused edits of a split

An edit of a split fails for its arguments alone: a boundary or a child that is
not there, the removal of the only child, a replacement by nothing. The arguments
are checked before anything is touched, so a refused edit leaves the split as it
was.
-/

set_option autoImplicit false

namespace DockLayout

variable {K : Type}

namespace SplitEdit

def child? : SplitEdit K → Option Int
  | .resize _ | .changeRatio .. => none
  | .replaceChild index _ | .insertChild index _ | .removeChild index | .expandChild index _ =>
      some index

end SplitEdit

namespace Split

def HasChild (s : Split K) (index : Int) : Prop := 0 ≤ index ∧ index < s.children.length

def HasBoundary (s : Split K) (index : Int) : Prop := 0 ≤ index ∧ index + 1 < s.ratios.length

theorem HasChild.exists_lt {s : Split K} {index : Int} (inside : s.HasChild index) :
    ∃ position : Nat, index = position ∧ position < s.children.length := by
  obtain ⟨position, rfl⟩ := Int.eq_ofNat_of_zero_le inside.1
  exact ⟨position, rfl, Int.ofNat_lt.mp inside.2⟩

theorem HasBoundary.exists_lt {s : Split K} {index : Int} (inside : s.HasBoundary index) :
    ∃ position : Nat, index = position ∧ position + 1 < s.ratios.length := by
  obtain ⟨position, rfl⟩ := Int.eq_ofNat_of_zero_le inside.1
  exact ⟨position, rfl, Int.ofNat_lt.mp inside.2⟩

/-- What a split refuses, and the error it answers. -/
inductive Refuses (s : Split K) : SplitEdit K → LayoutError K → Prop
  | boundary {index : Int} (outside : ¬ s.HasBoundary index) (delta : Point K) :
      Refuses s (.changeRatio index delta) (.boundaryIndex index s.handle (s.ratios.length - 1))
  | child {edit : SplitEdit K} {index : Int} (named : edit.child? = some index)
      (outside : ¬ s.HasChild index) :
      Refuses s edit (.childIndex index s.handle s.children.length)
  | onlyChild {index : Int} (inside : s.HasChild index) (single : s.children.length = 1) :
      Refuses s (.removeChild index) (.onlyChild s.handle)
  | noReplacement {index : Int} (inside : s.HasChild index) :
      Refuses s (.expandChild index []) .noReplacement

theorem atChild_of_outside {α : Type} {s : Split K} {index : Int} (outside : ¬ s.HasChild index)
    (edit : Nat → Outcome K (Split K) α) :
    s.atChild index edit = .refuse s (.childIndex index s.handle s.children.length) :=
  if_neg outside

theorem atChild_of_inside {α : Type} {s : Split K} {index : Int} (inside : s.HasChild index)
    (edit : Nat → Outcome K (Split K) α) : s.atChild index edit = edit index.toNat :=
  if_pos inside

variable [Scalar K]

theorem changeRatio_of_outside {s : Split K} {index : Int} (outside : ¬ s.HasBoundary index)
    (delta : Point K) :
    s.changeRatio index delta =
      .refuse s (.boundaryIndex index s.handle (s.ratios.length - 1)) :=
  if_neg outside

theorem changeRatio_of_lt (s : Split K) {index : Nat} (movable : index + 1 < s.ratios.length)
    (delta : Point K) :
    s.changeRatio index delta =
      .quiet (relayout { s with
        ratios := s.ratios.set index (s.movedRatio index delta) }) () := by
  have inside : s.HasBoundary index := ⟨Int.natCast_nonneg index, Int.ofNat_lt.mpr movable⟩
  exact if_pos inside

theorem Refuses.apply_eq {s : Split K} {edit : SplitEdit K} {error : LayoutError K}
    (refuses : s.Refuses edit error) : s.apply edit = .refuse s error := by
  cases refuses with
  | boundary outside delta =>
    rw [apply, changeRatio_of_outside outside]
    rfl
  | child named outside =>
    cases edit with
    | resize rect => cases named
    | changeRatio index delta => cases named
    | replaceChild index area =>
      cases named
      rw [apply, replaceChild, atChild_of_outside outside]
    | insertChild index area =>
      cases named
      rw [apply, insertChild, atChild_of_outside outside]
      rfl
    | removeChild index =>
      cases named
      rw [apply, removeChild, atChild_of_outside outside]
    | expandChild index areas =>
      cases named
      rw [apply, expandChild, atChild_of_outside outside]
      rfl
  | onlyChild inside single => rw [apply, removeChild, atChild_of_inside inside, if_pos single]
  | noReplacement inside =>
    rw [apply, expandChild, atChild_of_inside inside]
    rfl

theorem refuses_of_error {s : Split K} {edit : SplitEdit K} {error : LayoutError K}
    (failed : (s.apply edit).result = .error error) : s.Refuses edit error := by
  by_cases valid : ∀ index ∈ edit.child?, s.HasChild index
  case neg =>
    -- every edit of a child looks for the child first
    obtain ⟨index, invalid⟩ := not_forall.mp valid
    obtain ⟨named, outside⟩ := Classical.not_imp.mp invalid
    have refuses := Refuses.child named outside
    rw [refuses.apply_eq] at failed
    cases failed
    exact refuses
  cases edit with
  | resize rect => cases failed
  | changeRatio index delta =>
    rw [apply, changeRatio] at failed
    split at failed
    · cases failed
    · rename_i outside
      cases failed
      exact .boundary outside delta
  | replaceChild index area =>
    rw [apply, replaceChild, atChild_of_inside (valid index rfl)] at failed
    cases failed
  | insertChild index area =>
    rw [apply, insertChild, atChild_of_inside (valid index rfl)] at failed
    cases failed
  | removeChild index =>
    have inside := valid index rfl
    rw [apply, removeChild, atChild_of_inside inside] at failed
    split at failed
    · rename_i single
      cases failed
      exact .onlyChild inside single
    · cases failed
  | expandChild index areas =>
    have inside := valid index rfl
    rw [apply, expandChild, atChild_of_inside inside] at failed
    cases areas with
    | nil =>
      cases failed
      exact .noReplacement inside
    | cons first rest => cases failed

/-- An edit of a split is refused for the reasons listed and for no others, and a
refusal leaves the split as it was. -/
theorem apply_eq_refuse_iff (s : Split K) (edit : SplitEdit K) (error : LayoutError K) :
    s.apply edit = .refuse s error ↔ s.Refuses edit error :=
  ⟨fun refused => refuses_of_error (refused ▸ rfl), Refuses.apply_eq⟩

end Split

end DockLayout
