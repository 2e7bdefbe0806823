import DockLayout.Proofs.Tree.Sound

/-!
# Edits of sound trees

Putting, settling and vacating keep a tree sound, and keep its root where it is.
-/

set_option autoImplicit false

namespace DockLayout

variable {K : Type} [Scalar K] {regime : Regime K} {config : Config K} {next : Int}

/-! ## Putting and settling -/

theorem Path.Leads.sound_target {path : Path K} {root target : Area K}
    (leads : path.Leads root target) (sound : root.Sound regime config next) :
    target.Sound regime config next := by
  induction leads with
  | here area => exact sound
  | down present onward ih => exact ih (sound.child (member present))

namespace Step

variable {step : Step K} {child new : Area K}

/-- An area in the place of a child leaves the other places alone. -/
theorem sound_put (present : step.split.children[step.index]? = some child)
    (sound : step.split.toArea.Sound regime config next)
    (fresh : new.Sound regime config next) (place : new.rect = child.rect) :
    (step.put new).Sound regime config next := by
  cases sound with
  | split ratios room placed known each =>
    refine .split ratios room ?_ known ?_
    · have before : (step.split.children.map Area.rect)[step.index]? = some child.rect := by
        rw [List.getElem?_map, present, Option.map_some]
      obtain ⟨inside, value⟩ := List.getElem?_eq_some_iff.mp before
      rw [← placed, List.map_set, place, ← value, List.set_getElem_self]
    · intro area listed
      cases List.mem_or_eq_of_mem_set listed with
      | inl old => exact each area old
      | inr same => rw [same]; exact fresh

theorem layable_replaced (sound : step.split.toArea.Sound regime config next)
    (fresh : new.Sound regime config next) :
    Split.Layable regime config next
      { step.split with children := step.split.children.set step.index new } := by
  have layable := Split.Layable.of_sound sound
  refine ⟨layable.ratios, layable.room, ?_, layable.known, ?_⟩
  · rw [List.length_set]
    exact layable.count
  · intro area listed
    cases List.mem_or_eq_of_mem_set listed with
    | inl old => exact layable.each area old
    | inr same => rw [same]; exact fresh

end Step

theorem Path.Leads.sound_put {path : Path K} {root target new : Area K}
    (leads : path.Leads root target) (sound : root.Sound regime config next)
    (fresh : new.Sound regime config next) (place : new.rect = target.rect) :
    (path.put new).Sound regime config next ∧ (path.put new).rect = root.rect := by
  induction leads with
  | here area => exact ⟨fresh, place⟩
  | @down step rest child target present onward ih =>
    obtain ⟨below, same⟩ := ih (sound.child (member present)) place
    exact ⟨Step.sound_put present sound below same, rfl⟩

/-- The split that would lay its children out again has them where they belong. -/
theorem Path.Leads.settle_eq_put {path : Path K} {root target new : Area K}
    (leads : path.Leads root target) (sound : root.Sound regime config next)
    (fresh : new.Sound regime config next) (place : new.rect = target.rect) :
    path.settle new = path.put new := by
  induction leads with
  | here area => rfl
  | @down step rest child target present onward ih =>
    cases rest with
    | nil =>
      cases onward with
      | here =>
        have kept := Step.sound_put present sound fresh place
        rw [Path.settle, Split.replaceChild_state step.split (index_lt present)]
        exact congrArg Split.toArea (Split.relayout_of_sound kept)
    | cons following rest =>
      rw [Path.settle, ih (sound.child (member present)) place]
      · rfl
      · simp

/-! ## Removing -/

inductive Remains.Sound (regime : Regime K) (config : Config K) (next : Int) (rect : Rect K) :
    Remains K → Prop
  | nothing : Remains.Sound regime config next rect .nothing
  | kept {area : Area K} (sound : area.Sound regime config next) (place : area.rect = rect) :
      Remains.Sound regime config next rect (.kept area)
  | lone {split : Split K} {survivor : Area K} (only : split.children = [survivor])
      (sound : survivor.Sound regime config next) (place : split.rect = rect) :
      Remains.Sound regime config next rect (.lone split)

namespace Step

variable {step : Step K} {child : Area K}

theorem layable_without (present : step.split.children[step.index]? = some child)
    (sound : step.split.toArea.Sound regime config next)
    (several : step.split.children.length ≠ 1) :
    Split.Layable regime config next { step.split with
      children := step.split.children.eraseIdx step.index
      ratios := Split.ratiosWithout step.split.ratios step.index } := by
  have inside := Path.Leads.index_lt present
  have layable := Split.Layable.of_sound sound
  have within : step.index < step.split.ratios.length := layable.count ▸ inside
  have many : step.split.ratios.length ≠ 1 := layable.count ▸ several
  refine ⟨regime.ratios_without layable.ratios within many, layable.room, ?_, layable.known, ?_⟩
  · have erased : (step.split.children.eraseIdx step.index).length =
        step.split.children.length - 1 := List.length_eraseIdx_of_lt inside
    rw [erased, Split.length_ratiosWithout within many, layable.count]
  · intro area listed
    exact layable.each area (List.mem_of_mem_eraseIdx listed)

theorem layable_spliced (inner : Split K)
    (present : step.split.children[step.index]? = some child)
    (sound : step.split.toArea.Sound regime config next)
    (survives : inner.toArea.Sound regime config next)
    (aligned : inner.direction = step.split.direction) :
    Split.Layable regime config next { step.split with
      children := step.split.children.take step.index ++ inner.children ++
        step.split.children.drop (step.index + 1)
      ratios := step.split.splicedRatios step.index inner.children } := by
  have inside := Path.Leads.index_lt present
  have layable := Split.Layable.of_sound sound
  have innerLayable := Split.Layable.of_sound survives
  have within : step.index < step.split.ratios.length := layable.count ▸ inside
  have some : inner.children ≠ [] := by
    rintro empty
    have count := innerLayable.count
    rw [empty, List.length_nil] at count
    exact regime.ratios_ne_nil innerLayable.ratios (List.length_eq_zero_iff.mp count.symm)
  refine ⟨regime.ratios_spliced layable.ratios within innerLayable.ratios innerLayable.room
    aligned survives.placed, layable.room, ?_, layable.known, ?_⟩
  · have count := layable.count
    simp only [Split.splicedRatios, List.length_append, List.length_take, List.length_drop,
      Split.length_ends step.split step.index some]
    omega
  · intro area member
    rcases List.mem_append.mp member with member | later
    · rcases List.mem_append.mp member with earlier | new
      · exact layable.each area (List.mem_of_mem_take earlier)
      · exact innerLayable.each area new
    · exact layable.each area (List.mem_of_mem_drop later)

theorem sound_absorb {lone : Split K} {survivor : Area K}
    (present : step.split.children[step.index]? = some child)
    (sound : step.split.toArea.Sound regime config next) (only : lone.children = [survivor])
    (survives : survivor.Sound regime config next) :
    (step.split.absorb step.index lone).1.toArea.Sound regime config next ∧
      (step.split.absorb step.index lone).1.rect = step.split.rect := by
  have inside := Path.Leads.index_lt present
  rcases step.split.absorb_cases step.index only with
    ⟨frame, children, rfl, aligned, spliced⟩ | replaced
  · rw [spliced, Split.expandChild_state step.split inside survives.filled.children_ne_nil]
    exact ⟨(layable_spliced ⟨frame, children⟩ present sound survives aligned).relayout, rfl⟩
  · rw [replaced, Split.replaceChild_state step.split inside]
    exact ⟨(layable_replaced sound survives).relayout, rfl⟩

theorem sound_tidy (present : step.split.children[step.index]? = some child)
    (sound : step.split.toArea.Sound regime config next) {below : Remains K × List (Event K)}
    (left : below.1.Sound regime config next child.rect) :
    (step.tidy below).1.Sound regime config next step.split.rect := by
  have inside := Path.Leads.index_lt present
  obtain ⟨remains, events⟩ := below
  cases left with
  | nothing =>
    simp only [tidy]
    split
    · exact .nothing
    · rename_i several
      rw [Split.removeChild_state step.split inside several]
      have whole := (layable_without present sound several).relayout
      simp only
      split
      · rename_i single
        obtain ⟨survivor, only⟩ := List.length_eq_one_iff.mp single
        refine .lone only (whole.child ?_) rfl
        rw [only]
        exact List.mem_singleton_self survivor
      · exact .kept whole rfl
  | kept fresh place => exact .kept (sound_put present sound fresh place) rfl
  | lone only survives place =>
    obtain ⟨whole, same⟩ := sound_absorb present sound only survives
    exact .kept whole same

end Step

theorem Path.Leads.sound_vacate {path : Path K} {root target : Area K}
    (leads : path.Leads root target) (sound : root.Sound regime config next) :
    path.vacate.1.Sound regime config next root.rect := by
  induction leads with
  | here area => exact .nothing
  | @down step rest child target present onward ih =>
    exact Step.sound_tidy present sound (ih (sound.child (member present)))

theorem Remains.sound_root {rect : Rect K} {below : Remains K × List (Event K)}
    (left : below.1.Sound regime config next rect) (room : regime.Room rect) :
    ∀ root ∈ (Remains.root below).1, root.Sound regime config next ∧ root.rect = rect := by
  obtain ⟨remains, events⟩ := below
  intro root same
  cases left with
  | nothing => cases same
  | kept sound place =>
    cases same
    exact ⟨sound, place⟩
  | @lone split survivor only sound place =>
    simp only [Remains.root, only, List.head?_cons, Option.map_some, Option.mem_def,
      Option.some.injEq] at same
    rw [← same, place]
    exact ⟨sound.resize room, Area.rect_resize survivor rect⟩

end DockLayout
