import DockLayout.Tree.Search

/-!
# Routes

A route is a path that really leads from an area down to another: every step
names a child that is there. The searches by dock and by split find an area
together with a route to it, and take the first one in the order of visits.
-/

set_option autoImplicit false

namespace DockLayout

variable {K : Type}

/-- Following the path from the first area ends at the second. -/
inductive Path.Leads : Path K → Area K → Area K → Prop
  | here (area : Area K) : Leads [] area area
  | down {step : Step K} {rest : Path K} {child target : Area K}
      (present : step.split.children[step.index]? = some child)
      (onward : Leads rest child target) : Leads (step :: rest) step.split.toArea target

namespace Path.Leads

theorem index_lt {step : Step K} {child : Area K}
    (present : step.split.children[step.index]? = some child) :
    step.index < step.split.children.length :=
  (List.getElem?_eq_some_iff.mp present).1

theorem member {step : Step K} {child : Area K}
    (present : step.split.children[step.index]? = some child) :
    child ∈ step.split.children :=
  List.mem_of_getElem? present

theorem children_eq {step : Step K} {child : Area K}
    (present : step.split.children[step.index]? = some child) :
    step.split.children =
      step.split.children.take step.index ++
        child :: step.split.children.drop (step.index + 1) := by
  have inside := index_lt present
  have exact : step.split.children[step.index] = child := by
    rw [List.getElem?_eq_getElem inside] at present
    exact Option.some.inj present
  rw [← exact, ← List.drop_eq_getElem_cons inside, List.take_append_drop]

end Path.Leads

namespace Area

/-! ## The search by dock -/

theorem locateIn_eq_none {handle : DockHandle} {children : List (Area K)} {start : Nat} :
    locateIn handle children start = none ↔
      ∀ child ∈ children, child.locate? handle = none := by
  induction children generalizing start with
  | nil => simp [locateIn]
  | cons child rest ih =>
    cases found : child.locate? handle with
    | none => simp [locateIn, found, ih]
    | some pair => simp [locateIn, found]

theorem locateIn_eq_some {handle : DockHandle} {children : List (Area K)} {start index : Nat}
    {path : Path K} {panel : Container K}
    (found : locateIn handle children start = some (index, path, panel)) :
    ∃ position child, index = start + position ∧ children[position]? = some child ∧
      child.locate? handle = some (path, panel) ∧
      ∀ earlier ∈ children.take position, earlier.locate? handle = none := by
  induction children generalizing start with
  | nil => simp [locateIn] at found
  | cons child rest ih =>
    rw [locateIn] at found
    cases here : child.locate? handle with
    | some pair =>
      simp only [here, Option.some.injEq, Prod.mk.injEq] at found
      obtain ⟨rfl, rfl, rfl⟩ := found
      exact ⟨0, child, rfl, rfl, here, by simp⟩
    | none =>
      simp only [here] at found
      obtain ⟨position, later, rfl, present, held, before⟩ := ih found
      refine ⟨position + 1, later, by omega, present, held, ?_⟩
      rw [List.take_succ_cons]
      exact List.forall_mem_cons.mpr ⟨here, before⟩

theorem locate?_leads {handle : DockHandle} {area : Area K} {path : Path K}
    {panel : Container K} (found : area.locate? handle = some (path, panel)) :
    path.Leads area (.container panel) := by
  induction area generalizing path with
  | container shown =>
    rw [locate?] at found
    split at found
    · simp only [Option.some.injEq, Prod.mk.injEq] at found
      obtain ⟨rfl, rfl⟩ := found
      exact .here _
    · cases found
  | split frame children ih =>
    rw [locate?] at found
    cases search : locateIn handle children 0 with
    | none => simp [search] at found
    | some entry =>
      obtain ⟨index, rest, held⟩ := entry
      simp only [search, Option.some.injEq, Prod.mk.injEq] at found
      obtain ⟨rfl, rfl⟩ := found
      obtain ⟨position, child, same, present, onward, -⟩ := locateIn_eq_some search
      rw [Nat.zero_add] at same
      subst same
      let step : Step K := ⟨⟨frame, children⟩, index⟩
      have reached : step.split.children[step.index]? = some child := present
      exact .down reached (ih child (List.mem_of_getElem? reached) onward)

/-! ## The search by split -/

theorem findSplitIn_eq_none {handle : SplitHandle} {children : List (Area K)} :
    findSplitIn handle children = none ↔
      ∀ child ∈ children, child.findSplit? handle = none := by
  induction children with
  | nil => simp [findSplitIn]
  | cons child rest ih =>
    cases found : child.findSplit? handle with
    | none => simp [findSplitIn, found, ih]
    | some split => simp [findSplitIn, found]

/-- The search and the replacement stop at the same child. -/
theorem findSplitIn_eq_some {handle : SplitHandle} {children : List (Area K)} {split : Split K}
    (missing : ∀ child : Area K, child.findSplit? handle = none →
      ∀ new : Split K, child.putSplit handle new = none)
    (found : findSplitIn handle children = some split) :
    ∃ (index : Nat) (child : Area K), children[index]? = some child ∧
      child.findSplit? handle = some split ∧
      (∀ earlier ∈ children.take index, earlier.findSplit? handle = none) ∧
      ∀ new changed, child.putSplit handle new = some changed →
        putSplitIn handle new children = some (children.set index changed) := by
  induction children with
  | nil => simp [findSplitIn] at found
  | cons child rest ih =>
    rw [findSplitIn] at found
    cases here : child.findSplit? handle with
    | some first =>
      simp only [here, Option.some.injEq] at found
      subst found
      refine ⟨0, child, rfl, here, by simp, ?_⟩
      intro new changed put
      simp [putSplitIn, put]
    | none =>
      simp only [here] at found
      obtain ⟨index, later, present, held, before, put⟩ := ih found
      refine ⟨index + 1, later, present, held, ?_, ?_⟩
      · rw [List.take_succ_cons]
        exact List.forall_mem_cons.mpr ⟨here, before⟩
      · intro new changed changes
        simp [putSplitIn, missing child here new, put new changed changes]

theorem putSplit_eq_none {handle : SplitHandle} {area : Area K}
    (missing : area.findSplit? handle = none) (new : Split K) :
    area.putSplit handle new = none := by
  induction area with
  | container panel => simp [putSplit]
  | split frame children ih =>
    rw [findSplit?] at missing
    split at missing
    · cases missing
    · rename_i other
      have everywhere := findSplitIn_eq_none.mp missing
      have unchanged : putSplitIn handle new children = none := by
        clear missing
        induction children with
        | nil => rfl
        | cons child rest ihRest =>
          have first := ih child List.mem_cons_self (everywhere child List.mem_cons_self)
          have others := ihRest (fun later listed => ih later (List.mem_cons_of_mem child listed))
            (fun later listed => everywhere later (List.mem_cons_of_mem child listed))
          simp [putSplitIn, first, others]
      simp [putSplit, other, unchanged]

/-- The split that is found has the handle, and replacing it is putting an area
at the end of the way to it. -/
theorem findSplit?_leads {handle : SplitHandle} {area : Area K} {split : Split K}
    (found : area.findSplit? handle = some split) :
    split.handle = handle ∧ ∃ path : Path K, path.Leads area split.toArea ∧
      ∀ new : Split K, area.putSplit handle new = some (path.put new.toArea) := by
  induction area with
  | container panel => simp [findSplit?] at found
  | split frame children ih =>
    rw [findSplit?] at found
    split at found
    · rename_i same
      simp only [Option.some.injEq] at found
      subst found
      refine ⟨same, [], .here _, ?_⟩
      intro new
      simp [putSplit, same, Path.put]
    · rename_i other
      obtain ⟨index, child, present, held, -, put⟩ :=
        findSplitIn_eq_some (fun area missing new => putSplit_eq_none missing new) found
      obtain ⟨named, path, leads, changes⟩ := ih child (List.mem_of_getElem? present) held
      refine ⟨named, ⟨⟨frame, children⟩, index⟩ :: path, .down present leads, ?_⟩
      intro new
      simp [putSplit, other, put new _ (changes new), Path.put, Step.put]

end Area

end DockLayout
