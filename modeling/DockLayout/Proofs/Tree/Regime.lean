import DockLayout.Proofs.Tree.PathEdits

/-!
# Regimes

What is known of the numbers in a layout depends on the arithmetic. A regime
says which ratios a split may have and which rectangles, shares and
displacements may be handed to it, and has to be closed under all that an edit
computes from these. The invariant of the tree is stated for any regime.
-/

set_option autoImplicit false

namespace DockLayout

variable {K : Type} [Scalar K]

def Split.splicedRatios (s : Split K) (index : Nat) (areas : List (Area K)) : List K :=
  s.ratios.take index ++ s.ends index areas ++ s.ratios.drop (index + 1)

structure Regime (K : Type) [Scalar K] where
  /-- The ratios of a split. -/
  Ratios : List K → Prop
  /-- The rectangles of the workspace and its areas. -/
  Room : Rect K → Prop
  /-- The share that a panel is to keep when it is split. -/
  Share : K → Prop
  /-- The displacements of a boundary. -/
  Shift : Point K → Prop
  /-- The positions of the pointer. -/
  Pointer : Point K → Prop
  ratios_ne_nil : ∀ {ratios : List K}, Ratios ratios → ratios ≠ []
  room_zero : Room .zero
  room_of_cut : ∀ {rect part : Rect K} {direction : Direction} {ratios : List K},
    Room rect → Ratios ratios → part ∈ rect.cut direction ratios → Room part
  ratios_pair : ∀ {share : K}, Share share → Ratios [Split.bounded share, 1]
  share_complement : ∀ {share : K}, Share share → Share (1 - share)
  ratios_moved : ∀ {s : Split K} {index : Nat} {delta : Point K},
    Ratios s.ratios → Room s.rect → Shift delta → index + 1 < s.ratios.length →
    Ratios (s.ratios.set index (s.movedRatio index delta))
  ratios_without : ∀ {ratios : List K} {index : Nat},
    Ratios ratios → index < ratios.length → ratios.length ≠ 1 →
    Ratios (Split.ratiosWithout ratios index)
  /-- The areas that are spliced in come from a split of the same direction. -/
  ratios_spliced : ∀ {s inner : Split K} {index : Nat},
    Ratios s.ratios → index < s.ratios.length → Ratios inner.ratios → Room inner.rect →
    inner.direction = s.direction →
    inner.children.map Area.rect = inner.rect.cut inner.direction inner.ratios →
    Ratios (s.splicedRatios index inner.children)
  shift_of_pointers : ∀ {last p : Point K},
    Pointer last → Pointer p → Shift ⟨last.x - p.x, last.y - p.y⟩

namespace Split

theorem length_shareOut (start span finish whole reached : K) (weights : List K) :
    (shareOut start span finish whole reached weights).length = weights.length := by
  induction weights generalizing reached with
  | nil => rfl
  | cons weight rest ih => simp [shareOut, ih]

theorem length_weights (direction : Direction) (areas : List (Area K)) :
    (weights direction areas).1.length = areas.length := by
  rw [weights]
  split <;> simp

theorem length_ends (s : Split K) (index : Nat) {areas : List (Area K)} (some : areas ≠ []) :
    (s.ends index areas).length = areas.length := by
  have count := List.length_pos_of_ne_nil some
  simp only [ends, List.length_append, List.length_dropLast, length_shareOut, length_weights,
    List.length_singleton]
  omega

theorem length_ratiosWithout {ratios : List K} {index : Nat} (inside : index < ratios.length)
    (several : ratios.length ≠ 1) :
    (ratiosWithout ratios index).length = ratios.length - 1 := by
  have erased : (ratios.eraseIdx index).length = ratios.length - 1 :=
    List.length_eraseIdx_of_lt inside
  rw [ratiosWithout]
  split
  · simp only [List.length_append, List.length_dropLast, List.length_singleton, erased]
    omega
  · exact erased

end Split

/-- The regime that asks for nothing: whatever the numbers are, a split has at
least one ratio. -/
def Regime.any : Regime K where
  Ratios ratios := ratios ≠ []
  Room _ := True
  Share _ := True
  Shift _ := True
  Pointer _ := True
  ratios_ne_nil := id
  room_zero := trivial
  room_of_cut := fun _ _ _ => trivial
  ratios_pair := fun _ => List.cons_ne_nil _ _
  share_complement := fun _ => trivial
  ratios_moved := by
    intro s index delta some room shift inside empty
    rw [List.set_eq_nil_iff] at empty
    exact some empty
  ratios_without := by
    intro ratios index some inside several empty
    have count := Split.length_ratiosWithout inside several
    rw [empty, List.length_nil] at count
    omega
  ratios_spliced := by
    intro s inner index some inside ratios room aligned placed empty
    have ended : s.ends index inner.children = [] := by
      simp only [Split.splicedRatios, List.append_eq_nil_iff] at empty
      exact empty.1.2
    simp [Split.ends] at ended
  shift_of_pointers := fun _ _ => trivial

end DockLayout
