import DockLayout.Proofs.Tree.PathEdits

/-!
# Branching trees

A split is there to divide its place, so it should have at least two children.
Placing an area at the end of a route keeps that. Taking one out leaves a split with
one child behind for a moment, which the parent takes in on the way back to the root;
what is left branches again.
-/

set_option autoImplicit false

namespace DockLayout

variable {K : Type}

namespace Area

inductive Branching : Area K → Prop
  | container (panel : Container K) : Branching (.container panel)
  | split {frame : Partition K} {children : List (Area K)} (several : 2 ≤ children.length)
      (each : ∀ child ∈ children, Branching child) : Branching (.split frame children)

namespace Branching

theorem several {frame : Partition K} {children : List (Area K)}
    (branching : (Area.split frame children).Branching) : 2 ≤ children.length := by
  cases branching with
  | split several each => exact several

theorem child {frame : Partition K} {children : List (Area K)} {area : Area K}
    (branching : (Area.split frame children).Branching) (listed : area ∈ children) :
    area.Branching := by
  cases branching with
  | split several each => exact each area listed

theorem resize [Scalar K] {area : Area K} (branching : area.Branching) (rect : Rect K) :
    (area.resize rect).Branching := by
  induction branching generalizing rect with
  | container panel =>
    unfold Area.resize
    exact .container _
  | @split frame children several each ih =>
    unfold Area.resize
    refine .split (by rwa [length_resizeEach]) ?_
    intro child listed
    obtain ⟨origin, present, ⟨-, same⟩ | ⟨part, -, same⟩⟩ := resizeEach_mem listed
    · exact same ▸ each origin present
    · exact same ▸ ih origin present part

end Branching

theorem branching_iff {area : Area K} :
    area.Branching ↔
      ∀ inner ∈ area.preorder, ∀ split ∈ inner.split?, 2 ≤ split.children.length := by
  induction area with
  | container panel =>
    refine iff_of_true (.container panel) ?_
    intro inner listed split same
    rw [List.mem_singleton.mp listed] at same
    cases same
  | split frame children ih =>
    rw [preorder, preorderEach_eq, List.forall_mem_cons]
    constructor
    · intro branching
      refine ⟨?_, ?_⟩
      · rintro _ ⟨⟩
        exact branching.several
      · intro inner listed
        obtain ⟨child, present, below⟩ := List.mem_flatMap.mp listed
        exact (ih child present).mp (branching.child present) inner below
    · rintro ⟨several, below⟩
      refine .split (several ⟨frame, children⟩ rfl) fun child present => ?_
      refine (ih child present).mpr fun inner listed => below inner ?_
      exact List.mem_flatMap.mpr ⟨child, present, listed⟩

end Area

theorem Split.branching_relayout [Scalar K] {s : Split K} (branching : s.toArea.Branching) :
    s.relayout.toArea.Branching :=
  branching.resize s.rect

/-! ## Placing -/

theorem Step.branching_set {step : Step K} {new : Area K}
    (branching : step.split.toArea.Branching) (fresh : new.Branching) :
    (Area.split step.split.toPartition (step.split.children.set step.index new)).Branching := by
  refine .split ?_ ?_
  · rw [List.length_set]
    exact branching.several
  · intro area listed
    cases List.mem_or_eq_of_mem_set listed with
    | inl old => exact branching.child old
    | inr same => exact same ▸ fresh

namespace Path.Leads

theorem branching {path : Path K} {root target : Area K} (leads : path.Leads root target)
    (whole : root.Branching) : target.Branching := by
  induction leads with
  | here area => exact whole
  | down present onward ih => exact ih (whole.child (member present))

theorem branching_put {path : Path K} {root target new : Area K} (leads : path.Leads root target)
    (whole : root.Branching) (fresh : new.Branching) : (path.put new).Branching := by
  induction leads with
  | here area => exact fresh
  | down present onward ih =>
    exact Step.branching_set whole (ih (whole.child (member present)))

theorem branching_settle [Scalar K] {path : Path K} {root target new : Area K}
    (leads : path.Leads root target) (whole : root.Branching) (fresh : new.Branching) :
    (path.settle new).Branching := by
  induction leads with
  | here area => exact fresh
  | @down step rest child target present onward ih =>
    cases rest with
    | nil =>
      rw [Path.settle, Split.replaceChild_state step.split (index_lt present)]
      exact Split.branching_relayout (Step.branching_set whole fresh)
    | cons next rest =>
      rw [Path.settle]
      · exact Step.branching_set whole (ih (whole.child (member present)))
      · simp

end Path.Leads

/-! ## Removing -/

/-- What is left branches, once its one child takes the place of a lone split. -/
inductive Remains.Branching : Remains K → Prop
  | nothing : Branching .nothing
  | kept {area : Area K} (branching : area.Branching) : Branching (.kept area)
  | lone {split : Split K} {survivor : Area K} (only : split.children = [survivor])
      (branching : survivor.Branching) : Branching (.lone split)

section Removing

variable [Scalar K]

theorem Step.branching_absorb {step : Step K} {child survivor : Area K} {lone : Split K}
    (present : step.split.children[step.index]? = some child)
    (whole : step.split.toArea.Branching) (only : lone.children = [survivor])
    (branching : survivor.Branching) :
    (step.split.absorb step.index lone).1.toArea.Branching := by
  have inside := Path.Leads.index_lt present
  rcases step.split.absorb_cases step.index only with
    ⟨frame, children, rfl, -, spliced⟩ | replaced
  · -- the children of the survivor are two or more already, whatever stands around them
    have several := branching.several
    rw [spliced, Split.expandChild_state step.split inside (by rintro rfl; contradiction)]
    refine Split.branching_relayout (.split ?_ ?_)
    · simp only [List.length_append]
      omega
    · intro area member
      rcases List.mem_append.mp member with member | later
      · rcases List.mem_append.mp member with earlier | new
        · exact whole.child (List.mem_of_mem_take earlier)
        · exact branching.child new
      · exact whole.child (List.mem_of_mem_drop later)
  · rw [replaced, Split.replaceChild_state step.split inside]
    exact Split.branching_relayout (branching_set whole branching)

/-- A split loses at most one child, and it had at least two. -/
theorem Step.branching_tidy {step : Step K} {child : Area K}
    (present : step.split.children[step.index]? = some child)
    (whole : step.split.toArea.Branching) {below : Remains K × List (Event K)}
    (left : below.1.Branching) : (step.tidy below).1.Branching := by
  have inside := Path.Leads.index_lt present
  have several : 2 ≤ step.split.children.length := whole.several
  obtain ⟨remains, events⟩ := below
  cases left with
  | nothing =>
    simp only [tidy]
    split
    · exact .nothing
    · rename_i others
      rw [Split.removeChild_state step.split inside others]
      generalize restEq : Split.relayout { step.split with
        children := step.split.children.eraseIdx step.index
        ratios := Split.ratiosWithout step.split.ratios step.index } = rest
      have count : rest.children.length = step.split.children.length - 1 := by
        rw [← restEq, Split.relayout, Area.length_resizeEach]
        exact List.length_eraseIdx_of_lt inside
      have each : ∀ area ∈ rest.children, area.Branching := by
        intro area listed
        rw [← restEq, Split.relayout] at listed
        obtain ⟨origin, member, ⟨-, same⟩ | ⟨part, -, same⟩⟩ := Area.resizeEach_mem listed
        · exact same ▸ whole.child (List.mem_of_mem_eraseIdx member)
        · exact same ▸ (whole.child (List.mem_of_mem_eraseIdx member)).resize part
      split
      · rename_i single
        obtain ⟨survivor, only⟩ := List.length_eq_one_iff.mp single
        exact .lone only (each survivor (only ▸ List.mem_singleton_self survivor))
      · exact .kept (.split (by omega) each)
  | kept fresh => exact .kept (branching_set whole fresh)
  | lone only branching => exact .kept (branching_absorb present whole only branching)

theorem Path.Leads.branching_vacate {path : Path K} {root target : Area K}
    (leads : path.Leads root target) (whole : root.Branching) : path.vacate.1.Branching := by
  induction leads with
  | here area => exact .nothing
  | down present onward ih =>
    exact Step.branching_tidy present whole (ih (whole.child (member present)))

theorem Remains.branching_root {below : Remains K × List (Event K)}
    (left : below.1.Branching) : ∀ root ∈ (Remains.root below).1, root.Branching := by
  obtain ⟨remains, events⟩ := below
  intro root same
  cases left with
  | nothing => cases same
  | kept branching => exact Option.some.inj same ▸ branching
  | @lone split survivor only branching =>
    simp only [Remains.root, only, List.head?_cons, Option.map_some, Option.mem_def,
      Option.some.injEq] at same
    exact same ▸ branching.resize split.rect

end Removing

end DockLayout
