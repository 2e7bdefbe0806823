import DockLayout.Proofs.Tree.PathEdits

/-!
# Alternating trees

A split directly below one that is cut along the same axis could as well be a part of it. In
an alternating tree there is no such split. Taking an area out moves splits up the tree, but
one that comes to lie below another of its axis gives its children to it and goes, so no
tree gets more of these pairs than it had.
-/

set_option autoImplicit false

namespace DockLayout

variable {K : Type}

namespace Area

def axis? : Area K → Option Direction
  | .container _ => none
  | .split frame _ => some frame.direction

/-- No split is directly below one that is cut along the same axis. -/
inductive Alternating : Area K → Prop
  | container (panel : Container K) : Alternating (.container panel)
  | split {frame : Partition K} {children : List (Area K)}
      (across : ∀ child ∈ children, child.axis? ≠ some frame.direction)
      (each : ∀ child ∈ children, Alternating child) : Alternating (.split frame children)

mutual

/-- The number of splits that are directly below one that is cut along the same axis. -/
def alignedPairs : Area K → Nat
  | .container _ => 0
  | .split frame children => alignedBelow frame.direction children

def alignedBelow (direction : Direction) : List (Area K) → Nat
  | [] => 0
  | child :: rest =>
      (if child.axis? = some direction then 1 else 0) + child.alignedPairs +
        alignedBelow direction rest

end

theorem alignedBelow_append (direction : Direction) (first second : List (Area K)) :
    alignedBelow direction (first ++ second) =
      alignedBelow direction first + alignedBelow direction second := by
  induction first with
  | nil => simp [alignedBelow]
  | cons child rest ih =>
    simp only [List.cons_append, alignedBelow, ih]
    omega

theorem alignedBelow_eq_zero {direction : Direction} {children : List (Area K)} :
    alignedBelow direction children = 0 ↔
      ∀ child ∈ children, child.axis? ≠ some direction ∧ child.alignedPairs = 0 := by
  induction children with
  | nil => simp [alignedBelow]
  | cons child rest ih =>
    rw [List.forall_mem_cons, ← ih, alignedBelow]
    by_cases aligned : child.axis? = some direction
    · simp [aligned]
    · simp [aligned]

theorem alternating_iff {area : Area K} : area.Alternating ↔ area.alignedPairs = 0 := by
  induction area with
  | container panel => exact iff_of_true (.container panel) rfl
  | split frame children ih =>
    rw [alignedPairs, alignedBelow_eq_zero]
    constructor
    · intro alternating
      cases alternating with
      | split across each =>
        intro child listed
        exact ⟨across child listed, (ih child listed).mp (each child listed)⟩
    · intro none
      exact .split (fun child listed => (none child listed).1)
        fun child listed => (ih child listed).mpr (none child listed).2

instance decidableAlternating (area : Area K) : Decidable area.Alternating :=
  decidable_of_iff (area.alignedPairs = 0) alternating_iff.symm

/-! ## Placing -/

variable [Scalar K]

@[simp] theorem axis?_resize (area : Area K) (rect : Rect K) :
    (area.resize rect).axis? = area.axis? := by
  cases area <;> simp [resize, axis?]

theorem alignedBelow_resizeEach {direction : Direction} {areas : List (Area K)}
    (each : ∀ area ∈ areas, ∀ rect, (area.resize rect).alignedPairs = area.alignedPairs)
    (rects : List (Rect K)) :
    alignedBelow direction (resizeEach areas rects) = alignedBelow direction areas := by
  induction areas generalizing rects with
  | nil => rfl
  | cons area rest ih =>
    cases rects with
    | nil => rfl
    | cons rect others =>
      have here := each area List.mem_cons_self rect
      have later := ih (fun other listed => each other (List.mem_cons_of_mem area listed)) others
      simp only [resizeEach, alignedBelow, axis?_resize, here, later]

@[simp] theorem alignedPairs_resize (area : Area K) (rect : Rect K) :
    (area.resize rect).alignedPairs = area.alignedPairs := by
  induction area generalizing rect with
  | container panel => simp [resize, alignedPairs]
  | split frame children ih => simp only [resize, alignedPairs, alignedBelow_resizeEach ih]

end Area

open Area (alignedBelow)

theorem Split.alignedPairs_relayout [Scalar K] (s : Split K) :
    s.relayout.toArea.alignedPairs = alignedBelow s.direction s.children :=
  s.toArea.alignedPairs_resize s.rect

/-! ## Exchanging a child -/

/-- The area can stand in the place of the other one: it is cut along the same axis, and no
more pairs come with it. -/
structure Area.Fits (new old : Area K) : Prop where
  axis : new.axis? = old.axis?
  pairs : new.alignedPairs ≤ old.alignedPairs

namespace Step

variable {step : Step K} {child : Area K}

theorem alignedPairs_eq (present : step.split.children[step.index]? = some child) :
    step.split.toArea.alignedPairs =
      alignedBelow step.split.direction (step.split.children.take step.index) +
        alignedBelow step.split.direction [child] +
        alignedBelow step.split.direction (step.split.children.drop (step.index + 1)) := by
  rw [Split.toArea, Area.alignedPairs, ← Area.alignedBelow_append, ← Area.alignedBelow_append,
    List.append_assoc, List.singleton_append, ← Path.Leads.children_eq present]

theorem alignedBelow_exchange (present : step.split.children[step.index]? = some child)
    {areas : List (Area K)}
    (fewer : alignedBelow step.split.direction areas ≤
      alignedBelow step.split.direction [child]) :
    alignedBelow step.split.direction (step.split.children.take step.index ++ areas ++
        step.split.children.drop (step.index + 1)) ≤ step.split.toArea.alignedPairs := by
  rw [alignedPairs_eq present, Area.alignedBelow_append, Area.alignedBelow_append]
  omega

theorem alignedBelow_set (present : step.split.children[step.index]? = some child)
    {new : Area K}
    (fewer : alignedBelow step.split.direction [new] ≤ alignedBelow step.split.direction [child]) :
    alignedBelow step.split.direction (step.split.children.set step.index new) ≤
      step.split.toArea.alignedPairs := by
  rw [List.set_eq_take_append_cons_drop, if_pos (Path.Leads.index_lt present),
    ← List.singleton_append, ← List.append_assoc]
  exact alignedBelow_exchange present fewer

theorem fits_put (present : step.split.children[step.index]? = some child) {new : Area K}
    (fits : new.Fits child) : (step.put new).Fits step.split.toArea where
  axis := rfl
  pairs := by
    have pairs := fits.pairs
    refine alignedBelow_set present ?_
    simp only [Area.alignedBelow, fits.axis]
    omega

end Step

theorem Path.Leads.fits_put {path : Path K} {root target new : Area K}
    (leads : path.Leads root target) (fits : new.Fits target) : (path.put new).Fits root := by
  induction leads with
  | here area => exact fits
  | down present onward ih => exact Step.fits_put present (ih fits)

/-! ## Removing -/

inductive Remains.Fits (old : Area K) : Remains K → Prop
  | nothing : Remains.Fits old .nothing
  | kept {area : Area K} (fits : area.Fits old) : Remains.Fits old (.kept area)
  | lone {split : Split K} {survivor : Area K} (only : split.children = [survivor])
      (fits : split.toArea.Fits old) : Remains.Fits old (.lone split)

section Removing

variable [Scalar K]

namespace Split

theorem absorb_of_across (parent : Split K) (index : Nat) {lone : Split K} {survivor : Area K}
    (only : lone.children = [survivor]) (across : survivor.axis? ≠ some parent.direction) :
    (parent.absorb index lone).1 = (parent.replaceChild index survivor).state := by
  cases survivor with
  | container panel => simp only [absorb, only]
  | split frame children =>
    have different : ¬ frame.direction = parent.direction := by
      intro same
      exact across (congrArg some same)
    simp only [absorb, only, if_neg different]

theorem direction_replaceChild (s : Split K) (index : Int) (area : Area K) :
    (s.replaceChild index area).state.direction = s.direction := by
  unfold replaceChild atChild
  split <;> rfl

theorem direction_expandChild (s : Split K) (index : Int) (areas : List (Area K)) :
    (s.expandChild index areas).state.direction = s.direction := by
  unfold expandChild atChild
  split
  · split <;> rfl
  · rfl

theorem direction_absorb (parent : Split K) (index : Nat) {lone : Split K} {survivor : Area K}
    (only : lone.children = [survivor]) :
    (parent.absorb index lone).1.direction = parent.direction := by
  rcases parent.absorb_cases index only with ⟨frame, children, -, -, spliced⟩ | replaced
  · rw [spliced, direction_expandChild]
  · rw [replaced, direction_replaceChild]

theorem expandChild_nil (s : Split K) (index : Int) : (s.expandChild index []).state = s := by
  unfold expandChild atChild
  split <;> rfl

end Split

namespace Step

variable {step : Step K} {child : Area K}

/-- A survivor below a split of its axis leaves its children there and goes. Any other
survivor is in no pair with the split that it comes to lie below. -/
theorem alignedPairs_absorb {lone : Split K} {survivor : Area K}
    (present : step.split.children[step.index]? = some child)
    (only : lone.children = [survivor]) (fewer : lone.toArea.alignedPairs ≤ child.alignedPairs) :
    (step.split.absorb step.index lone).1.toArea.alignedPairs ≤
      step.split.toArea.alignedPairs := by
  have inside := Path.Leads.index_lt present
  have survives : survivor.alignedPairs ≤ alignedBelow step.split.direction [child] := by
    simp only [Split.toArea, Area.alignedPairs, only, Area.alignedBelow] at fewer ⊢
    omega
  by_cases aligned : survivor.axis? = some step.split.direction
  · cases survivor with
    | container panel => cases aligned
    | split frame children =>
      have same : frame.direction = step.split.direction := Option.some.inj aligned
      simp only [Split.absorb, only, if_pos same]
      by_cases none : children = []
      · simp only [none, Split.expandChild_nil, Nat.le_refl]
      · rw [Split.expandChild_state step.split inside none, Split.alignedPairs_relayout]
        rw [Area.alignedPairs, same] at survives
        exact alignedBelow_exchange present survives
  · have alone : alignedBelow step.split.direction [survivor] = survivor.alignedPairs := by
      simp [Area.alignedBelow, aligned]
    rw [step.split.absorb_of_across step.index only aligned,
      Split.replaceChild_state step.split inside, Split.alignedPairs_relayout]
    exact alignedBelow_set present (by omega)

/-- Tidying a step brings no two splits together that are cut along the same axis. -/
theorem fits_tidy (present : step.split.children[step.index]? = some child)
    {below : Remains K × List (Event K)} (left : below.1.Fits child) :
    (step.tidy below).1.Fits step.split.toArea := by
  have inside := Path.Leads.index_lt present
  obtain ⟨remains, events⟩ := below
  cases left with
  | nothing =>
    simp only [tidy]
    split
    · exact .nothing
    · rename_i several
      have fits : (step.split.removeChild step.index).state.toArea.Fits step.split.toArea := by
        rw [Split.removeChild_state step.split inside several]
        refine ⟨rfl, ?_⟩
        rw [Split.alignedPairs_relayout, List.eraseIdx_eq_take_drop_succ,
          ← List.append_nil (List.take _ _)]
        exact alignedBelow_exchange present (Nat.zero_le _)
      split
      · rename_i single
        obtain ⟨survivor, only⟩ := List.length_eq_one_iff.mp single
        exact .lone only fits
      · exact .kept fits
  | kept fits => exact .kept (fits_put present fits)
  | lone only fits =>
    refine .kept ⟨?_, alignedPairs_absorb present only fits.pairs⟩
    exact congrArg some (step.split.direction_absorb step.index only)

end Step

theorem Path.Leads.fits_vacate {path : Path K} {root target : Area K}
    (leads : path.Leads root target) : path.vacate.1.Fits root := by
  induction leads with
  | here area => exact .nothing
  | down present onward ih => exact Step.fits_tidy present ih

theorem Remains.Fits.root {old : Area K} {below : Remains K × List (Event K)}
    (left : below.1.Fits old) :
    ∀ root ∈ (Remains.root below).1, root.alignedPairs ≤ old.alignedPairs := by
  obtain ⟨remains, events⟩ := below
  intro root same
  cases left with
  | nothing => cases same
  | kept fits => exact Option.some.inj same ▸ fits.pairs
  | @lone split survivor only fits =>
    have fewer := fits.pairs
    simp only [Remains.root, only, List.head?_cons, Option.map_some, Option.mem_def,
      Option.some.injEq] at same
    rw [← same, Area.alignedPairs_resize]
    simp only [Split.toArea, Area.alignedPairs, only, Area.alignedBelow] at fewer
    omega

end Removing

end DockLayout
