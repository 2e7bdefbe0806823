import DockLayout.Proofs.Tree.Groups

/-!
# Groups along a route

A route divides the groups of a tree: those before the area at its end, the
area's own, and those after it. Every edit at the end of a route keeps the first
and the last part. A removal restructures the splits on the way and still leaves
exactly these two parts; all that it announces is splits that have gone.
-/

set_option autoImplicit false

namespace DockLayout

variable {K : Type}

/-! ## Before and after -/

def Step.before (step : Step K) : List (TabGroup K) :=
  (step.split.children.take step.index).flatMap Area.groups

def Step.after (step : Step K) : List (TabGroup K) :=
  (step.split.children.drop (step.index + 1)).flatMap Area.groups

def Path.before : Path K → List (TabGroup K)
  | [] => []
  | step :: rest => step.before ++ Path.before rest

def Path.after : Path K → List (TabGroup K)
  | [] => []
  | step :: rest => Path.after rest ++ step.after

theorem Step.flatMap_children {α : Type} {step : Step K} {child : Area K}
    (present : step.split.children[step.index]? = some child) (list : Area K → List α) :
    step.split.children.flatMap list =
      (step.split.children.take step.index).flatMap list ++ list child ++
        (step.split.children.drop (step.index + 1)).flatMap list := by
  conv_lhs => rw [Path.Leads.children_eq present]
  rw [List.flatMap_append, List.flatMap_cons, List.append_assoc]

theorem Step.flatMap_set {α : Type} {step : Step K} {child : Area K}
    (present : step.split.children[step.index]? = some child) (new : Area K)
    (list : Area K → List α) :
    (step.split.children.set step.index new).flatMap list =
      (step.split.children.take step.index).flatMap list ++ list new ++
        (step.split.children.drop (step.index + 1)).flatMap list := by
  rw [List.set_eq_take_append_cons_drop, if_pos (Path.Leads.index_lt present),
    List.flatMap_append, List.flatMap_cons, List.append_assoc]

theorem Step.groups_eq {step : Step K} {child : Area K}
    (present : step.split.children[step.index]? = some child) :
    step.split.toArea.groups = step.before ++ child.groups ++ step.after := by
  rw [Split.toArea, Area.groups_split, flatMap_children present]
  rfl

theorem Path.Leads.groups_eq {path : Path K} {root target : Area K}
    (leads : path.Leads root target) :
    root.groups = path.before ++ target.groups ++ path.after := by
  induction leads with
  | here area => simp [Path.before, Path.after]
  | @down step rest child target present onward ih =>
    rw [Step.groups_eq present, ih]
    simp [Path.before, Path.after]

theorem Path.Leads.filled {path : Path K} {root target : Area K}
    (leads : path.Leads root target) (filled : root.Filled) : target.Filled := by
  induction leads with
  | here area => exact filled
  | down present onward ih => exact ih (Area.filled_child filled (member present))

/-! ## The first group that holds a dock -/

namespace Area

theorem locate?_eq_none {handle : DockHandle} {area : Area K} :
    area.locate? handle = none ↔ ∀ group ∈ area.groups, group.holds handle = false := by
  induction area with
  | container panel =>
    rw [locate?, groups_container, Container.hasDock_eq]
    cases holds : panel.group.holds handle <;> simp [holds]
  | split frame children ih =>
    have search : (split frame children).locate? handle = none ↔
        locateIn handle children 0 = none := by
      unfold locate?
      cases locateIn handle children 0 <;> simp
    rw [search, locateIn_eq_none, groups_split]
    constructor
    · intro missing group listed
      obtain ⟨child, present, inside⟩ := List.mem_flatMap.mp listed
      exact (ih child present).mp (missing child present) group inside
    · intro missing child present
      apply (ih child present).mpr
      intro group inside
      exact missing group (List.mem_flatMap.mpr ⟨child, present, inside⟩)

theorem locate?_eq_none_iff {handle : DockHandle} {area : Area K} :
    area.locate? handle = none ↔ handle ∉ dockHandlesIn area.preorder := by
  rw [locate?_eq_none, dockHandlesIn_preorder, List.mem_flatMap]
  simp only [← TabGroup.holds_iff, not_exists, not_and, Bool.not_eq_true]

/-- The search answers with the first container that holds the dock. -/
theorem locate?_first {handle : DockHandle} {area : Area K} {path : Path K}
    {panel : Container K} (found : area.locate? handle = some (path, panel)) :
    panel.group.holds handle = true ∧ ∀ group ∈ path.before, group.holds handle = false := by
  induction area generalizing path with
  | container shown =>
    rw [locate?, Container.hasDock_eq] at found
    split at found
    · rename_i holds
      simp only [Option.some.injEq, Prod.mk.injEq] at found
      obtain ⟨rfl, rfl⟩ := found
      exact ⟨holds, by simp [Path.before]⟩
    · cases found
  | split frame children ih =>
    rw [locate?] at found
    cases search : locateIn handle children 0 with
    | none => simp [search] at found
    | some entry =>
      obtain ⟨index, rest, held⟩ := entry
      simp only [search, Option.some.injEq, Prod.mk.injEq] at found
      obtain ⟨rfl, rfl⟩ := found
      obtain ⟨position, child, same, present, onward, earlier⟩ := locateIn_eq_some search
      obtain ⟨holds, before⟩ := ih child (List.mem_of_getElem? present) onward
      refine ⟨holds, ?_⟩
      intro group listed
      rw [Path.before, Step.before] at listed
      rcases List.mem_append.mp listed with outside | inside
      · obtain ⟨sibling, first, member⟩ := List.mem_flatMap.mp outside
        rw [same, Nat.zero_add] at first
        exact locate?_eq_none.mp (earlier sibling first) group member
      · exact before group inside

end Area

/-! ## Putting -/

theorem Step.groups_set {step : Step K} {child : Area K}
    (present : step.split.children[step.index]? = some child) (new : Area K) :
    (step.split.children.set step.index new).flatMap Area.groups =
      step.before ++ new.groups ++ step.after := by
  rw [flatMap_set present]
  rfl

theorem Step.filled_set {step : Step K} {child new : Area K}
    (present : step.split.children[step.index]? = some child)
    (filled : step.split.toArea.Filled) (fresh : new.Filled) :
    (Area.split step.split.toPartition (step.split.children.set step.index new)).Filled := by
  refine .split ?_ ?_
  · intro empty
    have inside := Path.Leads.index_lt present
    have count : (step.split.children.set step.index new).length = 0 := by rw [empty]; rfl
    rw [List.length_set] at count
    omega
  · intro area listed
    cases List.mem_or_eq_of_mem_set listed with
    | inl old => exact Area.filled_child filled old
    | inr same => rw [same]; exact fresh

theorem Step.put_child {step : Step K} {child : Area K}
    (present : step.split.children[step.index]? = some child) :
    step.put child = step.split.toArea := by
  obtain ⟨inside, value⟩ := List.getElem?_eq_some_iff.mp present
  rw [put, ← value, List.set_getElem_self, Split.toArea]

theorem Path.put_cons (step : Step K) (rest : Path K) (area : Area K) :
    Path.put (step :: rest) area = step.put (Path.put rest area) := rfl

theorem Path.Leads.put_target {path : Path K} {root target : Area K}
    (leads : path.Leads root target) : path.put target = root := by
  induction leads with
  | here area => rfl
  | down present onward ih => rw [put_cons, ih, Step.put_child present]

theorem Path.Leads.groups_put {path : Path K} {root target : Area K}
    (leads : path.Leads root target) (new : Area K) :
    (path.put new).groups = path.before ++ new.groups ++ path.after := by
  induction leads with
  | here area => simp [Path.put, Path.before, Path.after]
  | @down step rest child target present onward ih =>
    rw [put_cons, Step.put, Area.groups_split, Step.groups_set present, ih]
    simp [Path.before, Path.after]

theorem Path.Leads.filled_put {path : Path K} {root target new : Area K}
    (leads : path.Leads root target) (filled : root.Filled) (fresh : new.Filled) :
    (path.put new).Filled := by
  induction leads with
  | here area => exact fresh
  | down present onward ih =>
    exact Step.filled_set present filled (ih (Area.filled_child filled (member present)))

/-! ## Settling -/

section Settling

variable [Scalar K]

omit [Scalar K] in
theorem Split.atChild_of_lt {α : Type} (s : Split K) {index : Nat}
    (inside : index < s.children.length) (edit : Nat → Outcome K (Split K) α) :
    s.atChild index edit = edit index := by
  simp [atChild, inside]

theorem Split.replaceChild_state (s : Split K) {index : Nat} (inside : index < s.children.length)
    (area : Area K) :
    (s.replaceChild index area).state =
      relayout { s with children := s.children.set index area } := by
  rw [replaceChild, s.atChild_of_lt inside]
  rfl

theorem Path.Leads.groups_settle {path : Path K} {root target : Area K}
    (leads : path.Leads root target) (new : Area K) :
    (path.settle new).groups = path.before ++ new.groups ++ path.after := by
  induction leads with
  | here area => simp [Path.settle, Path.before, Path.after]
  | @down step rest child target present onward ih =>
    cases rest with
    | nil =>
      rw [Path.settle, Split.replaceChild_state step.split (index_lt present),
        Split.groups_relayout, Step.groups_set present]
      simp [Path.before, Path.after]
    | cons next rest =>
      rw [Path.settle, Step.put, Area.groups_split, Step.groups_set present, ih]
      · simp [Path.before, Path.after]
      · simp

theorem Path.Leads.filled_settle {path : Path K} {root target new : Area K}
    (leads : path.Leads root target) (filled : root.Filled) (fresh : new.Filled) :
    (path.settle new).Filled := by
  induction leads with
  | here area => exact fresh
  | @down step rest child target present onward ih =>
    cases rest with
    | nil =>
      rw [Path.settle, Split.replaceChild_state step.split (index_lt present)]
      exact Split.filled_relayout (Step.filled_set present filled fresh)
    | cons next rest =>
      rw [Path.settle]
      · exact Step.filled_set present filled (ih (Area.filled_child filled (member present)))
      · simp

end Settling

/-! ## Removing -/

section Removing

variable [Scalar K]

def Split.ratiosWithout (ratios : List K) (index : Nat) : List K :=
  let rest := ratios.eraseIdx index
  if index = rest.length then rest.dropLast ++ [1] else rest

theorem Split.removeChild_eq (s : Split K) {index : Nat} (inside : index < s.children.length)
    (several : s.children.length ≠ 1) :
    s.removeChild index =
      .quiet (relayout { s with
        children := s.children.eraseIdx index
        ratios := ratiosWithout s.ratios index }) s.children[index]? := by
  rw [removeChild, s.atChild_of_lt inside, if_neg several]
  rfl

theorem Split.removeChild_state (s : Split K) {index : Nat} (inside : index < s.children.length)
    (several : s.children.length ≠ 1) :
    (s.removeChild index).state =
      relayout { s with
        children := s.children.eraseIdx index, ratios := ratiosWithout s.ratios index } := by
  rw [s.removeChild_eq inside several]
  rfl

/-- Where the areas end that replace a child: each but the last in proportion to
its weight, and the last one where the child ended. -/
def Split.ends (s : Split K) (index : Nat) (areas : List (Area K)) : List K :=
  let start := previousRatio s.ratios index
  let finish := s.ratios.getD index 0
  let (shares, whole) := weights s.direction areas
  (shareOut start (finish - start) finish whole 0 shares).dropLast ++ [finish]

theorem Split.expandChild_eq (s : Split K) {index : Nat} (inside : index < s.children.length)
    {areas : List (Area K)} (some : areas ≠ []) :
    s.expandChild index areas =
      .quiet (relayout { s with
        children := s.children.take index ++ areas ++ s.children.drop (index + 1)
        ratios := s.ratios.take index ++ s.ends index areas ++ s.ratios.drop (index + 1) }) () := by
  have listed : areas.isEmpty = false := List.isEmpty_eq_false_iff.mpr some
  rw [expandChild, s.atChild_of_lt inside, listed]
  rfl

theorem Split.expandChild_state (s : Split K) {index : Nat} (inside : index < s.children.length)
    {areas : List (Area K)} (some : areas ≠ []) :
    (s.expandChild index areas).state =
      relayout { s with
        children := s.children.take index ++ areas ++ s.children.drop (index + 1)
        ratios := s.ratios.take index ++ s.ends index areas ++ s.ratios.drop (index + 1) } := by
  rw [s.expandChild_eq inside some]
  rfl

omit [Scalar K]

namespace Remains

def groups : Remains K → List (TabGroup K)
  | .nothing => []
  | .kept area => area.groups
  | .lone split => split.children.flatMap Area.groups

inductive Filled : Remains K → Prop
  | nothing : Filled .nothing
  | kept {area : Area K} (filled : area.Filled) : Filled (.kept area)
  | lone {split : Split K} {child : Area K} (only : split.children = [child])
      (filled : child.Filled) : Filled (.lone split)

end Remains

variable [Scalar K]

/-- A survivor that is cut along the parent's axis is spliced in, and any other
takes the place of its split. -/
theorem Split.absorb_eq (parent : Split K) (index : Nat) {lone : Split K} {survivor : Area K}
    (only : lone.children = [survivor]) :
    (∃ frame children, survivor = .split frame children ∧ frame.direction = parent.direction ∧
      parent.absorb index lone = ((parent.expandChild index children).state,
        [.splitRemoved frame.handle, .splitRemoved lone.handle])) ∨
    parent.absorb index lone = ((parent.replaceChild index survivor).state,
      [.splitRemoved lone.handle]) := by
  cases survivor with
  | container panel =>
    right
    simp only [absorb, only]
  | split frame children =>
    by_cases aligned : frame.direction = parent.direction
    · left
      refine ⟨frame, children, rfl, aligned, ?_⟩
      simp only [absorb, only, if_pos aligned]
    · right
      simp only [absorb, only, if_neg aligned]

theorem Split.absorb_cases (parent : Split K) (index : Nat) {lone : Split K} {survivor : Area K}
    (only : lone.children = [survivor]) :
    (∃ frame children, survivor = .split frame children ∧ frame.direction = parent.direction ∧
      (parent.absorb index lone).1 = (parent.expandChild index children).state) ∨
    (parent.absorb index lone).1 = (parent.replaceChild index survivor).state := by
  rcases parent.absorb_eq index only with ⟨frame, children, same, aligned, spliced⟩ | replaced
  · exact .inl ⟨frame, children, same, aligned, congrArg Prod.fst spliced⟩
  · exact .inr (congrArg Prod.fst replaced)

theorem Step.groups_absorb {step : Step K} {child survivor : Area K} {lone : Split K}
    (present : step.split.children[step.index]? = some child)
    (filled : step.split.toArea.Filled) (only : lone.children = [survivor])
    (survives : survivor.Filled) :
    (step.split.absorb step.index lone).1.toArea.Filled ∧
      (step.split.absorb step.index lone).1.toArea.groups =
        step.before ++ survivor.groups ++ step.after := by
  have inside := Path.Leads.index_lt present
  rcases step.split.absorb_cases step.index only with
    ⟨frame, children, rfl, -, spliced⟩ | replaced
  · have listed : children ≠ [] := by
      cases survives with
      | split some each => exact some
    rw [spliced, Split.expandChild_state step.split inside listed, Split.groups_relayout]
    constructor
    · apply Split.filled_relayout
      refine .split (by simp [listed]) ?_
      intro area member
      rcases List.mem_append.mp member with member | later
      · rcases List.mem_append.mp member with earlier | new
        · exact Area.filled_child filled (List.mem_of_mem_take earlier)
        · exact Area.filled_child survives new
      · exact Area.filled_child filled (List.mem_of_mem_drop later)
    · simp [before, after]
  · rw [replaced, Split.replaceChild_state step.split inside, Split.groups_relayout,
      groups_set present]
    exact ⟨Split.filled_relayout (filled_set present filled survives), rfl⟩

omit [Scalar K] in
theorem Step.groups_erase {step : Step K} :
    (step.split.children.eraseIdx step.index).flatMap Area.groups = step.before ++ step.after := by
  rw [List.eraseIdx_eq_take_drop_succ, List.flatMap_append]
  rfl

/-- Tidying a step keeps what is left below it, between the children before the
step's and those after it. -/
theorem Step.tidy_groups {step : Step K} {child : Area K}
    (present : step.split.children[step.index]? = some child)
    (filled : step.split.toArea.Filled) {below : Remains K × List (Event K)}
    (left : below.1.Filled) :
    (step.tidy below).1.Filled ∧
      (step.tidy below).1.groups = step.before ++ below.1.groups ++ step.after := by
  have inside := Path.Leads.index_lt present
  obtain ⟨remains, events⟩ := below
  cases left with
  | nothing =>
    simp only [tidy]
    split
    · rename_i single
      have first : step.index = 0 := by omega
      have others : step.split.children.drop (step.index + 1) = [] :=
        List.drop_eq_nil_of_le (by omega)
      refine ⟨.nothing, ?_⟩
      rw [Remains.groups, before, after, others, first]
      simp
    · rename_i several
      rw [Split.removeChild_state step.split inside several]
      have count : (step.split.children.eraseIdx step.index).length =
          step.split.children.length - 1 := List.length_eraseIdx_of_lt inside
      have each : ∀ area ∈ step.split.children.eraseIdx step.index, area.Filled :=
        fun area member => Area.filled_child filled (List.mem_of_mem_eraseIdx member)
      have some : step.split.children.eraseIdx step.index ≠ [] := by
        intro empty
        rw [empty, List.length_nil] at count
        omega
      generalize restEq : Split.relayout { step.split with
        children := step.split.children.eraseIdx step.index
        ratios := Split.ratiosWithout step.split.ratios step.index } = rest
      have whole : rest.toArea.Filled := by
        rw [← restEq]
        exact Split.filled_relayout (.split some each)
      have parts : rest.toArea.groups = step.before ++ step.after := by
        rw [← restEq, Split.groups_relayout, groups_erase]
      split
      · rename_i single
        obtain ⟨survivor, only⟩ := List.length_eq_one_iff.mp single
        refine ⟨.lone only (Area.filled_child whole (only ▸ List.mem_singleton_self survivor)), ?_⟩
        simpa [Remains.groups, Split.toArea] using parts
      · exact ⟨.kept whole, by simpa [Remains.groups] using parts⟩
  | kept fresh =>
    exact ⟨.kept (filled_set present filled fresh), by
      rw [tidy, Remains.groups, put, Area.groups_split, groups_set present]; rfl⟩
  | lone only survives =>
    obtain ⟨whole, parts⟩ := groups_absorb present filled only survives
    refine ⟨.kept whole, ?_⟩
    simp only [tidy, Remains.groups, only, List.flatMap_cons, List.flatMap_nil, List.append_nil]
    exact parts

theorem Path.vacate_cons (step : Step K) (rest : Path K) :
    Path.vacate (step :: rest) = step.tidy (Path.vacate rest) := rfl

theorem Path.Leads.groups_vacate {path : Path K} {root target : Area K}
    (leads : path.Leads root target) (filled : root.Filled) :
    path.vacate.1.Filled ∧ path.vacate.1.groups = path.before ++ path.after := by
  induction leads with
  | here area => exact ⟨.nothing, rfl⟩
  | @down step rest child target present onward ih =>
    obtain ⟨left, parts⟩ := ih (Area.filled_child filled (member present))
    obtain ⟨whole, around⟩ := Step.tidy_groups present filled left
    refine ⟨whole, ?_⟩
    rw [vacate_cons, around, parts]
    simp [Path.before, Path.after]

theorem Remains.groups_root {below : Remains K × List (Event K)} (left : below.1.Filled) :
    (∀ root ∈ (Remains.root below).1, root.Filled) ∧
      ((Remains.root below).1.elim [] Area.groups) = below.1.groups := by
  obtain ⟨remains, events⟩ := below
  cases left with
  | nothing => exact ⟨by simp [Remains.root], rfl⟩
  | kept filled =>
    refine ⟨?_, rfl⟩
    intro root same
    exact Option.some.inj same ▸ filled
  | @lone split survivor only filled =>
    constructor
    · intro root same
      simp only [Remains.root, only, List.head?_cons, Option.map_some, Option.mem_def,
        Option.some.injEq] at same
      exact same ▸ filled.resize split.rect
    · simp [Remains.root, only, Remains.groups]

/-! ## What a removal announces -/

omit [Scalar K] in
theorem Event.filterMap_of_gone {α : Type} (read : Event K → Option α)
    (unread : ∀ handle, read (.splitRemoved handle) = none) {events : List (Event K)}
    (gone : ∀ event ∈ events, ∃ handle, event = .splitRemoved handle) :
    events.filterMap read = [] := by
  refine List.filterMap_eq_nil_iff.mpr ?_
  intro event listed
  obtain ⟨handle, rfl⟩ := gone event listed
  exact unread handle

theorem Split.absorb_posts (parent : Split K) (index : Nat) (lone : Split K) :
    ∀ event ∈ (parent.absorb index lone).2, ∃ handle, event = .splitRemoved handle := by
  unfold absorb
  split
  · simp
  · split <;> simp
  · simp

/-- Vacating announces nothing but splits that go. -/
theorem Path.vacate_posts (path : Path K) :
    ∀ event ∈ path.vacate.2, ∃ handle, event = .splitRemoved handle := by
  induction path with
  | nil => simp [vacate]
  | cons step rest ih =>
    rw [vacate_cons]
    generalize vacate rest = below at ih
    obtain ⟨remains, events⟩ := below
    intro event listed
    cases remains with
    | nothing =>
      simp only [Step.tidy] at listed
      split at listed
      · rcases List.mem_append.mp listed with earlier | last
        · exact ih event earlier
        · exact ⟨_, List.mem_singleton.mp last⟩
      · exact ih event listed
    | kept area => exact ih event listed
    | lone split =>
      rcases List.mem_append.mp listed with earlier | last
      · exact ih event earlier
      · exact step.split.absorb_posts step.index split event last

theorem Remains.root_posts {below : Remains K × List (Event K)}
    (posts : ∀ event ∈ below.2, ∃ handle, event = .splitRemoved handle) :
    ∀ event ∈ (root below).2, ∃ handle, event = .splitRemoved handle := by
  obtain ⟨remains, events⟩ := below
  cases remains with
  | nothing => exact posts
  | kept area => exact posts
  | lone split =>
    intro event listed
    rcases List.mem_append.mp listed with earlier | last
    · exact posts event earlier
    · exact ⟨split.handle, List.mem_singleton.mp last⟩

end Removing

end DockLayout
