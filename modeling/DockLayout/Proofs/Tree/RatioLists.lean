import DockLayout.Proofs.Binary64.Ratios
import DockLayout.Proofs.Tree.SoundEdits

/-!
# The ratios of a tree

An edit at the end of a route leaves the ratios of every split beside the route
as they are. A removal rewrites those of at most two splits on it: one loses a
child, and one may take in the children of a split. Only the second can leave
ratios that are no numbers.
-/

set_option autoImplicit false

namespace DockLayout

variable {K : Type}

namespace Area

def ratioLists (area : Area K) : List (List K) := area.readings Partition.ratios

@[simp] theorem ratioLists_container (panel : Container K) : (container panel).ratioLists = [] :=
  rfl

@[simp] theorem ratioLists_split (frame : Partition K) (children : List (Area K)) :
    (split frame children).ratioLists = frame.ratios :: children.flatMap ratioLists :=
  readings_split Partition.ratios frame children

@[simp] theorem ratioLists_resize [Scalar K] (area : Area K) (rect : Rect K) :
    (area.resize rect).ratioLists = area.ratioLists :=
  readings_resize Partition.ratios (fun _ _ => rfl) area rect

theorem ratioLists_configure (config : Config K) (area : Area K) :
    (area.configure config).ratioLists = area.ratioLists :=
  readings_configure Partition.ratios config area

end Area

theorem Split.ratioLists_relayout [Scalar K] (s : Split K) :
    s.relayout.toArea.ratioLists = s.ratios :: s.children.flatMap Area.ratioLists := by
  have same : s.relayout.toArea = s.toArea.resize s.rect := by
    rw [toArea, toArea, Area.resize]
    rfl
  rw [same, Area.ratioLists_resize, toArea, Area.ratioLists_split]

theorem Area.Assembled.ordered {area : Area Float} (assembled : area.Assembled)
    (numeric : ∀ ratios ∈ area.ratioLists, Numeric ratios) :
    ∀ ratios ∈ area.ratioLists, Ordered ratios := by
  induction assembled with
  | container shown => exact fun ratios listed => nomatch listed
  | @split children raw direction handle split made each ih =>
    have checked := Split.ordered_of_made made
    obtain ⟨-, -, rfl⟩ := Split.make_eq_ok made
    rw [Split.ratioLists_relayout, List.forall_mem_cons] at numeric ⊢
    refine ⟨checked numeric.1, ?_⟩
    intro ratios listed
    obtain ⟨child, present, inside⟩ := List.mem_flatMap.mp listed
    have below : ∀ ratios ∈ child.ratioLists, Numeric ratios := fun inner member =>
      numeric.2 inner (List.mem_flatMap.mpr ⟨child, present, member⟩)
    exact ih child present below ratios inside

/-! ## Beside a route -/

def Step.ratiosBeside (step : Step K) : List (List K) :=
  step.split.ratios :: ((step.split.children.take step.index).flatMap Area.ratioLists ++
    (step.split.children.drop (step.index + 1)).flatMap Area.ratioLists)

def Path.ratiosBeside (path : Path K) : List (List K) := path.flatMap Step.ratiosBeside

section Beside

variable {ratios : List K}

theorem Path.mem_ratiosBeside_cons {step : Step K} {rest : Path K} :
    ratios ∈ Path.ratiosBeside (step :: rest) ↔
      ratios ∈ step.ratiosBeside ∨ ratios ∈ rest.ratiosBeside := by
  rw [ratiosBeside, List.flatMap_cons, List.mem_append, ratiosBeside]

theorem Step.mem_ratioLists_set {step : Step K} {child : Area K}
    (present : step.split.children[step.index]? = some child) (new : Area K) :
    ratios ∈ step.split.ratios :: (step.split.children.set step.index new).flatMap Area.ratioLists ↔
      ratios ∈ step.ratiosBeside ∨ ratios ∈ new.ratioLists := by
  rw [flatMap_set present, ratiosBeside]
  simp only [List.mem_cons, List.mem_append]
  tauto

theorem Step.mem_ratioLists {step : Step K} {child : Area K}
    (present : step.split.children[step.index]? = some child) :
    ratios ∈ step.split.toArea.ratioLists ↔
      ratios ∈ step.ratiosBeside ∨ ratios ∈ child.ratioLists := by
  have same : step.split.children.set step.index child = step.split.children := by
    obtain ⟨inside, value⟩ := List.getElem?_eq_some_iff.mp present
    rw [← value, List.set_getElem_self]
  rw [Split.toArea, Area.ratioLists_split, ← same, mem_ratioLists_set present]

namespace Path.Leads

variable {path : Path K} {root target : Area K}

theorem mem_ratioLists (leads : path.Leads root target) :
    ratios ∈ root.ratioLists ↔ ratios ∈ path.ratiosBeside ∨ ratios ∈ target.ratioLists := by
  induction leads with
  | here area => simp [ratiosBeside]
  | @down step rest child target present onward ih =>
    rw [Step.mem_ratioLists present, ih, mem_ratiosBeside_cons, or_assoc]

theorem mem_ratioLists_put (leads : path.Leads root target) (new : Area K) :
    ratios ∈ (path.put new).ratioLists ↔
      ratios ∈ path.ratiosBeside ∨ ratios ∈ new.ratioLists := by
  induction leads with
  | here area => simp [put, ratiosBeside]
  | @down step rest child target present onward ih =>
    rw [put_cons, Step.put, Area.ratioLists_split, Step.mem_ratioLists_set present, ih,
      mem_ratiosBeside_cons, or_assoc]

theorem mem_ratioLists_settle [Scalar K] (leads : path.Leads root target) (new : Area K) :
    ratios ∈ (path.settle new).ratioLists ↔
      ratios ∈ path.ratiosBeside ∨ ratios ∈ new.ratioLists := by
  induction leads with
  | here area => simp [settle, ratiosBeside]
  | @down step rest child target present onward ih =>
    cases rest with
    | nil =>
      rw [settle, Split.replaceChild_state step.split (index_lt present),
        Split.ratioLists_relayout, Step.mem_ratioLists_set present]
      simp [ratiosBeside]
    | cons next rest =>
      rw [settle]
      · rw [Step.put, Area.ratioLists_split, Step.mem_ratioLists_set present, ih,
          @mem_ratiosBeside_cons K ratios step, or_assoc]
      · simp

end Path.Leads

end Beside

/-! ## Splices -/

/-- The only child of a lone split, if the parent takes in the children of that child
instead of the child itself. -/
def Split.spliced? (parent lone : Split K) : Option (Split K) :=
  match lone.children with
  | .split frame children :: _ =>
      if frame.direction = parent.direction then some ⟨frame, children⟩ else none
  | _ => none

/-- The split whose children are spliced in one level up when the area at the end of
the path is removed. -/
def Path.spliced? [Scalar K] : Path K → Option (Split K)
  | [] => none
  | step :: rest =>
      match (Path.vacate rest).1 with
      | .lone split => step.split.spliced? split
      | _ => Path.spliced? rest

theorem Split.absorb_spliced? [Scalar K] (parent : Split K) (index : Nat) {lone : Split K}
    {survivor : Area K} (only : lone.children = [survivor]) :
    (∃ inner, parent.spliced? lone = some inner ∧ survivor = inner.toArea ∧
      inner.direction = parent.direction ∧
      (parent.absorb index lone).1 = (parent.expandChild index inner.children).state) ∨
    parent.spliced? lone = none ∧
      (parent.absorb index lone).1 = (parent.replaceChild index survivor).state := by
  cases survivor with
  | container panel =>
    right
    simp only [spliced?, absorb, only, and_self]
  | split frame children =>
    by_cases aligned : frame.direction = parent.direction
    · left
      refine ⟨⟨frame, children⟩, ?_, rfl, aligned, ?_⟩
      · simp only [spliced?, only, if_pos aligned]
      · simp only [absorb, only, if_pos aligned]
    · right
      simp only [spliced?, absorb, only, if_neg aligned, and_self]

theorem Path.spliced?_eq_none [Scalar K] {path : Path K}
    (unsettled : ∀ area, path.vacate.1 ≠ .kept area) : path.spliced? = none := by
  induction path with
  | nil => rfl
  | cons step rest ih =>
    rw [vacate_cons, Step.tidy] at unsettled
    rw [spliced?]
    split
    · rename_i split same
      rw [same] at unsettled
      exact absurd rfl (unsettled _)
    · apply ih
      intro area same
      rw [same] at unsettled
      exact unsettled _ rfl

def Remains.ratioLists : Remains K → List (List K)
  | .nothing => []
  | .kept area => area.ratioLists
  | .lone split => split.children.flatMap Area.ratioLists

/-! ## Removing -/

section Removing

variable {config : Config Float} {next : Int}

namespace Step

variable {step : Step Float} {child : Area Float}

theorem ordered_absorb {survivor : Area Float} {lone : Split Float}
    (present : step.split.children[step.index]? = some child)
    (sound : step.split.toArea.Sound Regime.any config next)
    (beside : ∀ ratios ∈ step.ratiosBeside, Ordered ratios) (only : lone.children = [survivor])
    (survives : survivor.Sound Regime.any config next)
    (ordered : ∀ ratios ∈ survivor.ratioLists, Ordered ratios)
    (fits : ∀ inner ∈ step.split.spliced? lone, ¬ inner.Overflows) :
    ∀ ratios ∈ (step.split.absorb step.index lone).1.toArea.ratioLists, Ordered ratios := by
  have inside := Path.Leads.index_lt present
  intro ratios listed
  rcases step.split.absorb_spliced? step.index only with
    ⟨inner, found, rfl, aligned, spliced⟩ | ⟨-, replaced⟩
  · have some : inner.children ≠ [] := survives.filled.children_ne_nil
    rw [Split.toArea, Area.ratioLists_split, List.forall_mem_cons] at ordered
    obtain ⟨innerOrdered, below⟩ := ordered
    rw [spliced, Split.expandChild_state step.split inside some,
      Split.ratioLists_relayout] at listed
    rcases List.mem_cons.mp listed with rfl | other
    · have within : step.index < step.split.ratios.length := sound.count ▸ inside
      exact Ordered.spliced (beside _ List.mem_cons_self) within innerOrdered
        (fun several => .of_not_overflows several survives.placed (fits inner found)) aligned
        survives.placed
    · simp only [List.flatMap_append, List.mem_append] at other
      rcases other with (earlier | spliced) | later
      · exact beside ratios (List.mem_cons_of_mem _ (List.mem_append_left _ earlier))
      · exact below ratios spliced
      · exact beside ratios (List.mem_cons_of_mem _ (List.mem_append_right _ later))
  · rw [replaced, Split.replaceChild_state step.split inside, Split.ratioLists_relayout,
      mem_ratioLists_set present] at listed
    exact listed.elim (beside ratios) (ordered ratios)

theorem ordered_removeChild (present : step.split.children[step.index]? = some child)
    (sound : step.split.toArea.Sound Regime.any config next)
    (beside : ∀ ratios ∈ step.ratiosBeside, Ordered ratios)
    (several : ¬ step.split.children.length = 1) :
    ∀ ratios ∈ (step.split.removeChild step.index).state.toArea.ratioLists, Ordered ratios := by
  have inside := Path.Leads.index_lt present
  have within : step.index < step.split.ratios.length := sound.count ▸ inside
  rw [Split.removeChild_state step.split inside several, Split.ratioLists_relayout,
    List.forall_mem_cons]
  refine ⟨(beside _ List.mem_cons_self).without within, ?_⟩
  intro ratios listed
  rw [List.eraseIdx_eq_take_drop_succ, List.flatMap_append] at listed
  exact beside ratios (List.mem_cons_of_mem _ listed)

theorem ordered_tidy (present : step.split.children[step.index]? = some child)
    (sound : step.split.toArea.Sound Regime.any config next)
    (beside : ∀ ratios ∈ step.ratiosBeside, Ordered ratios)
    {below : Remains Float × List (Event Float)}
    (left : below.1.Sound Regime.any config next child.rect)
    (ordered : ∀ ratios ∈ below.1.ratioLists, Ordered ratios)
    (fits : ∀ lone, below.1 = .lone lone →
      ∀ inner ∈ step.split.spliced? lone, ¬ inner.Overflows) :
    ∀ ratios ∈ (step.tidy below).1.ratioLists, Ordered ratios := by
  obtain ⟨remains, events⟩ := below
  cases left with
  | nothing =>
    simp only [tidy]
    split
    · exact fun ratios listed => absurd listed List.not_mem_nil
    · rename_i several
      have whole := ordered_removeChild present sound beside several
      split
      · rw [Split.toArea, Area.ratioLists_split, List.forall_mem_cons] at whole
        exact whole.2
      · exact whole
  | kept fresh place =>
    intro ratios listed
    rw [tidy, Remains.ratioLists, put, Area.ratioLists_split, mem_ratioLists_set present] at listed
    exact listed.elim (beside ratios) (ordered ratios)
  | @lone split survivor only survives place =>
    have inner : ∀ ratios ∈ survivor.ratioLists, Ordered ratios := by
      intro ratios listed
      apply ordered
      rw [Remains.ratioLists, only, List.flatMap_singleton]
      exact listed
    exact ordered_absorb present sound beside only survives inner (fits split rfl)

end Step

namespace Path.Leads

variable {path : Path Float} {root target : Area Float}

/-- A removal that overflows nowhere leaves ordered ratios. -/
theorem ordered_vacate (leads : path.Leads root target)
    (sound : root.Sound Regime.any config next)
    (ordered : ∀ ratios ∈ root.ratioLists, Ordered ratios)
    (fits : ∀ inner ∈ path.spliced?, ¬ inner.Overflows) :
    ∀ ratios ∈ path.vacate.1.ratioLists, Ordered ratios := by
  induction leads with
  | here area => exact fun ratios listed => nomatch listed
  | @down step rest child target present onward ih =>
    have below := sound.child (member present)
    have beside : ∀ ratios ∈ step.ratiosBeside, Ordered ratios :=
      fun ratios listed => ordered ratios ((Step.mem_ratioLists present).mpr (.inl listed))
    have inner : ∀ ratios ∈ child.ratioLists, Ordered ratios :=
      fun ratios listed => ordered ratios ((Step.mem_ratioLists present).mpr (.inr listed))
    rw [spliced?] at fits
    rw [vacate_cons]
    apply Step.ordered_tidy present sound beside (onward.sound_vacate below)
    · apply ih below inner
      cases same : (Path.vacate rest).1 with
      | lone split =>
        -- The split that `fits` speaks of is spliced in at this step, and none below it.
        have none : Path.spliced? rest = none := spliced?_eq_none (by simp [same])
        rw [none]
        exact fun _ => nofun
      | nothing => simpa [same] using fits
      | kept area => simpa [same] using fits
    · intro lone same
      simpa [same] using fits

/-- A removal that overflows leaves a split with a ratio that is no number. -/
theorem not_numeric_vacate (leads : path.Leads root target)
    (sound : root.Sound Regime.any config next) {inner : Split Float}
    (found : path.spliced? = some inner) (overflows : inner.Overflows) :
    ∃ ratios ∈ path.vacate.1.ratioLists, ¬ Numeric ratios := by
  induction leads with
  | here area => cases found
  | @down step rest child target present onward ih =>
    have below := sound.child (member present)
    have left := onward.sound_vacate below
    rw [vacate_cons, Step.tidy]
    cases same : (Path.vacate rest).1 with
    | nothing =>
      rw [spliced?, same] at found
      rw [spliced?_eq_none (by simp [same])] at found
      cases found
    | kept area =>
      rw [spliced?, same] at found
      obtain ⟨ratios, listed, lost⟩ := ih below found
      rw [same] at listed
      refine ⟨ratios, ?_, lost⟩
      rw [Remains.ratioLists, Step.put, Area.ratioLists_split, Step.mem_ratioLists_set present]
      exact .inr listed
    | lone split =>
      rw [spliced?, same] at found
      rw [same] at left
      cases left with
      | @lone _ survivor only survives place =>
        rcases step.split.absorb_spliced? step.index only with
          ⟨other, takes, rfl, aligned, spliced⟩ | ⟨none, -⟩
        · obtain rfl : other = inner := Option.some.inj (takes.symm.trans found)
          have some : other.children ≠ [] := survives.filled.children_ne_nil
          refine ⟨_, ?_, Split.not_numeric_spliced step.index aligned overflows⟩
          simp only
          rw [spliced, Split.expandChild_state step.split (index_lt present) some,
            Remains.ratioLists, Split.ratioLists_relayout]
          exact List.mem_cons_self
        · cases none.symm.trans found

end Path.Leads

theorem Remains.ratioLists_root {rect : Rect Float}
    {below : Remains Float × List (Event Float)}
    (left : below.1.Sound Regime.any config next rect) :
    (Remains.root below).1.elim [] Area.ratioLists = below.1.ratioLists := by
  obtain ⟨remains, events⟩ := below
  cases left with
  | nothing => rfl
  | kept sound place => rfl
  | @lone split survivor only sound place =>
    simp [Remains.root, Remains.ratioLists, only]

end Removing

end DockLayout
