import DockLayout.Proofs.Tree.PathEdits

/-!
# Edits on the list of groups

Every edit of a workspace is an edit of the first group that holds the dock it
names. The tree decides where areas lie and nothing else: which groups there are
afterwards, and in which order, follows from the groups before.
-/

set_option autoImplicit false

namespace DockLayout

variable {K : Type}

/-! ## The list machine -/

namespace TabGroup

def editFirst (handle : DockHandle) (edit : TabGroup K → List (TabGroup K)) :
    List (TabGroup K) → Option (List (TabGroup K))
  | [] => none
  | group :: rest =>
      if group.holds handle then some (edit group ++ rest)
      else (editFirst handle edit rest).map (group :: ·)

theorem editFirst_eq_none {handle : DockHandle} {edit : TabGroup K → List (TabGroup K)}
    {groups : List (TabGroup K)} :
    editFirst handle edit groups = none ↔ ∀ group ∈ groups, group.holds handle = false := by
  induction groups with
  | nil => simp [editFirst]
  | cons group rest ih =>
    cases holds : group.holds handle with
    | true => simp [editFirst, holds]
    | false => simp [editFirst, holds, ih]

theorem editFirst_append {handle : DockHandle} {edit : TabGroup K → List (TabGroup K)}
    {before after : List (TabGroup K)} {group : TabGroup K}
    (others : ∀ other ∈ before, other.holds handle = false)
    (holds : group.holds handle = true) :
    editFirst handle edit (before ++ group :: after) = some (before ++ edit group ++ after) := by
  induction before with
  | nil => simp [editFirst, holds]
  | cons first rest ih =>
    have skipped := others first List.mem_cons_self
    have later := ih fun other listed => others other (List.mem_cons_of_mem first listed)
    simp [editFirst, skipped, later]

def beside (dock : Dock K) (before : Bool) (group : TabGroup K) : List (TabGroup K) :=
  if before then [single dock, group] else [group, single dock]

def lessened (handle : DockHandle) (group : TabGroup K) : List (TabGroup K) :=
  if (group.without handle).docks.isEmpty then [] else [group.without handle]

end TabGroup

/-! ## Workspaces as lists of groups -/

namespace Workspace

def containers (ws : Workspace K) : List (Container K) := ws.areas.filterMap Area.container?

theorem containers_of_root {ws : Workspace K} {root : Area K} (rooted : ws.root = some root) :
    ws.containers = root.containers := by
  simp only [containers, areas, rooted, Area.visit_eq, Area.containers]

def groups (ws : Workspace K) : List (TabGroup K) :=
  (ws.areas.filterMap Area.container?).map Container.group

def Filled (ws : Workspace K) : Prop := ∀ root ∈ ws.root, root.Filled

theorem groups_eq (ws : Workspace K) : ws.groups = ws.root.elim [] Area.groups := by
  cases same : ws.root with
  | none => simp [groups, areas, same]
  | some root => simp [groups, areas, same, Area.groups, Area.containers]

theorem dockHandles_eq (ws : Workspace K) :
    ws.dockHandles = ws.groups.flatMap fun group => group.docks.map Dock.handle := by
  rw [groups_eq]
  cases same : ws.root with
  | none => simp [dockHandles, areas, same, Area.dockHandlesIn]
  | some root => simp [dockHandles, areas, same, Area.dockHandlesIn_preorder]

theorem root_eq_none_iff {ws : Workspace K} (filled : ws.Filled) :
    ws.root = none ↔ ws.groups = [] := by
  rw [groups_eq]
  cases same : ws.root with
  | none => simp
  | some root => simpa using Area.groups_ne_nil (filled root same)

theorem locate?_eq_none {ws : Workspace K} {handle : DockHandle} :
    ws.locate? handle = none ↔ ∀ group ∈ ws.groups, group.holds handle = false := by
  rw [groups_eq, locate?]
  cases same : ws.root with
  | none => simp
  | some root => simpa using Area.locate?_eq_none

theorem locate?_eq_some {ws : Workspace K} {handle : DockHandle} {path : Path K}
    {panel : Container K} (found : ws.locate? handle = some (path, panel)) :
    ∃ root, ws.root = some root ∧ path.Leads root (.container panel) ∧
      ws.groups = path.before ++ panel.group :: path.after ∧
      (∀ group ∈ path.before, group.holds handle = false) ∧
      panel.group.holds handle = true := by
  rw [locate?] at found
  obtain ⟨root, same, search⟩ := Option.bind_eq_some_iff.mp found
  have leads := Area.locate?_leads search
  obtain ⟨holds, others⟩ := Area.locate?_first search
  refine ⟨root, same, leads, ?_, others, holds⟩
  rw [groups_eq, same, Option.elim_some, leads.groups_eq]
  simp

theorem editFirst_of_locate? {ws : Workspace K} {handle : DockHandle} {path : Path K}
    {panel : Container K} (found : ws.locate? handle = some (path, panel))
    (edit : TabGroup K → List (TabGroup K)) :
    TabGroup.editFirst handle edit ws.groups =
      some (path.before ++ edit panel.group ++ path.after) := by
  obtain ⟨root, -, -, groups, others, holds⟩ := locate?_eq_some found
  rw [groups, TabGroup.editFirst_append others holds]

/-! ## Edits -/

/-- What an edit of the list says about an outcome: nothing happens when no group
is edited, and otherwise the groups are the edited ones. -/
def Reflects {α : Type} (ws : Workspace K) (outcome : Outcome K (Workspace K) α)
    (edited : Option (List (TabGroup K))) (found absent : α) : Prop :=
  match edited with
  | none => outcome = .quiet ws absent
  | some groups =>
      outcome.result = .ok found ∧ outcome.state.groups = groups ∧ outcome.state.Filled

variable [Scalar K]

theorem splitBy_reflects {ws : Workspace K} (filled : ws.Filled) (direction : Direction)
    (target : DockHandle) (dock : Dock K) (before : Bool) (ratio : Option K) :
    ws.Reflects (ws.splitBy direction target dock before ratio)
      (TabGroup.editFirst target (TabGroup.beside dock before) ws.groups) true false := by
  cases found : ws.locate? target with
  | none =>
    rw [TabGroup.editFirst_eq_none.mpr (locate?_eq_none.mp found)]
    simp only [Reflects, splitBy, found]
  | some entry =>
    obtain ⟨path, panel⟩ := entry
    obtain ⟨root, same, leads, -⟩ := locate?_eq_some found
    have whole := filled root same
    have kept : (Area.container panel).Filled := leads.filled whole
    rw [editFirst_of_locate? found]
    generalize addedEq : Area.container (ws.newContainer dock .zero) = added
    have fresh : added.Filled := by
      rw [← addedEq]
      exact .container (List.cons_ne_nil dock [])
    have alone : added.groups = [TabGroup.single dock] := by
      rw [← addedEq, Area.groups_container]
      rfl
    have pair : ∀ (ratio : K) (handle : SplitHandle) (first second : Area K),
        first.Filled → second.Filled →
        (Split.pair direction ratio handle panel.rect first second).toArea.Filled ∧
          (Split.pair direction ratio handle panel.rect first second).toArea.groups =
            first.groups ++ second.groups := by
      intro ratio handle first second firstFilled secondFilled
      constructor
      · apply Split.filled_relayout
        refine .split (List.cons_ne_nil _ _) ?_
        simp [firstFilled, secondFilled]
      · simp [Split.pair]
    simp only [Reflects, splitBy, found, addedEq, newSplitHandle, Outcome.publish, true_and,
      groups_eq, Option.elim_some, leads.groups_settle]
    cases before with
    | true =>
      obtain ⟨settled, groups⟩ := pair (1 - ratio.getD ws.config.defaultSplitRatio)
        ⟨ws.nextSplit⟩ added (.container panel) fresh kept
      refine ⟨by simp [groups, alone, TabGroup.beside], ?_⟩
      rintro _ ⟨⟩
      exact leads.filled_settle whole settled
    | false =>
      obtain ⟨settled, groups⟩ := pair (ratio.getD ws.config.defaultSplitRatio)
        ⟨ws.nextSplit⟩ (.container panel) added kept fresh
      refine ⟨by simp [groups, alone, TabGroup.beside], ?_⟩
      rintro _ ⟨⟩
      exact leads.filled_settle whole settled

omit [Scalar K] in
theorem addTab_reflects {ws : Workspace K} (filled : ws.Filled) (target : DockHandle)
    (dock : Dock K) :
    ws.Reflects (ws.addTab target dock)
      (TabGroup.editFirst target (fun group => [group.append dock]) ws.groups) true false := by
  cases found : ws.locate? target with
  | none =>
    rw [TabGroup.editFirst_eq_none.mpr (locate?_eq_none.mp found)]
    simp only [Reflects, addTab, found]
  | some entry =>
    obtain ⟨path, panel⟩ := entry
    obtain ⟨root, same, leads, -⟩ := locate?_eq_some found
    rw [editFirst_of_locate? found]
    simp only [Reflects, addTab, found, Outcome.publish, true_and, groups_eq, Option.elim_some,
      leads.groups_put, Area.groups_container, Container.group_appendDock]
    rintro _ ⟨⟩
    exact leads.filled_put (filled root same) (.container (by simp [Container.appendDock]))

omit [Scalar K] in
theorem setActiveDock_reflects {ws : Workspace K} (filled : ws.Filled) (handle : DockHandle) :
    ws.Reflects (ws.setActiveDock handle)
      (TabGroup.editFirst handle (fun group => [group.showing handle]) ws.groups)
      true false := by
  cases found : ws.locate? handle with
  | none =>
    rw [TabGroup.editFirst_eq_none.mpr (locate?_eq_none.mp found)]
    simp only [Reflects, setActiveDock, found]
  | some entry =>
    obtain ⟨path, panel⟩ := entry
    obtain ⟨root, same, leads, -, -, holds⟩ := locate?_eq_some found
    obtain ⟨shown, changed⟩ := Container.setActive_of_holds holds
    rw [editFirst_of_locate? found]
    simp only [Reflects, setActiveDock, found, Outcome.quiet, shown, true_and, groups_eq,
      Option.elim_some, leads.groups_put, Area.groups_container, changed]
    rintro _ ⟨⟩
    refine leads.filled_put (filled root same) (.container ?_)
    have docks : (panel.setActive handle).2.docks = panel.docks := congrArg TabGroup.docks changed
    rw [docks]
    cases leads.filled (filled root same) with
    | container some => exact some

def firstDock? (ws : Workspace K) (handle : DockHandle) : Option (Dock K) :=
  (ws.groups.flatMap TabGroup.docks).find? fun dock => dock.handle = handle

omit [Scalar K] in
theorem firstDock?_of_locate? {ws : Workspace K} {handle : DockHandle} {path : Path K}
    {panel : Container K} (found : ws.locate? handle = some (path, panel)) :
    ws.firstDock? handle = panel.docks.find? fun dock => dock.handle = handle := by
  obtain ⟨root, -, -, groups, others, holds⟩ := locate?_eq_some found
  obtain ⟨-, dock, -, -, first⟩ := Container.indexOf?_of_holds holds
  have skipped : (path.before.flatMap TabGroup.docks).find?
      (fun dock => dock.handle = handle) = none := by
    rw [List.find?_eq_none]
    intro other listed
    obtain ⟨group, member, inside⟩ := List.mem_flatMap.mp listed
    exact List.any_eq_false.mp (others group member) other inside
  rw [firstDock?, groups, List.flatMap_append, List.find?_append, skipped, Option.none_or,
    List.flatMap_cons, List.find?_append]
  change (panel.docks.find? _).or _ = _
  rw [first, Option.some_or]

/-- The last dock of a container takes the container with it. Any other dock leaves it
in its place with one dock less, one of which is shown. -/
theorem removeDock_of_locate? {ws : Workspace K} {handle : DockHandle} {path : Path K}
    {panel : Container K} (found : ws.locate? handle = some (path, panel)) :
    (panel.docks.length = 1 →
      (ws.removeDock handle).state = { ws with root := (Remains.root path.vacate).1 }) ∧
    (panel.docks.length ≠ 1 → ∃ (docks : List (Dock K)) (active : Nat),
      (panel.active < panel.docks.length → active < docks.length) ∧
      (ws.removeDock handle).state =
        { ws with root := some (path.put (.container { panel with docks, active })) }) := by
  obtain ⟨root, same, leads, -, -, holds⟩ := locate?_eq_some found
  obtain ⟨index, dock, present, -⟩ := Container.indexOf?_of_holds holds
  have inside := (List.getElem?_eq_some_iff.mp present).1
  have erased : (panel.docks.eraseIdx (panel.group.position handle)).length =
      panel.docks.length - 1 := List.length_eraseIdx_of_lt inside
  simp only [removeDock, found, Container.removeDock, index, present]
  constructor
  · intro last
    have empty : (panel.docks.eraseIdx (panel.group.position handle)).isEmpty = true := by
      rw [List.isEmpty_iff, ← List.length_eq_zero_iff]
      omega
    rw [if_pos empty]
    rfl
  · intro others
    have some : ¬ (panel.docks.eraseIdx (panel.group.position handle)).isEmpty = true := by
      rw [List.isEmpty_iff, ← List.length_eq_zero_iff]
      omega
    rw [if_neg some]
    refine ⟨_, _, ?_, rfl⟩
    intro shown
    split <;> omega

/-- A removal announces the splits that go, and then the dock that it answers with. -/
theorem removeDock_eq (ws : Workspace K) (handle : DockHandle) :
    ws.removeDock handle = .quiet ws none ∨
      ∃ dock root dissolved, ws.removeDock handle =
        .publish { ws with root } (some dock) (dissolved ++ [.dockRemoved dock]) ∧
          ∀ event ∈ dissolved, ∃ handle, event = .splitRemoved handle := by
  unfold removeDock
  cases ws.locate? handle with
  | none => exact .inl rfl
  | some entry =>
    obtain ⟨path, panel⟩ := entry
    simp only
    split
    · exact .inl rfl
    · rename_i dock rest taken
      right
      split
      · exact ⟨dock, _, _, rfl, Remains.root_posts path.vacate_posts⟩
      · exact ⟨dock, _, [], rfl, List.forall_mem_nil _⟩

theorem removeDock_reflects {ws : Workspace K} (filled : ws.Filled) (handle : DockHandle) :
    ws.Reflects (ws.removeDock handle)
      (TabGroup.editFirst handle (TabGroup.lessened handle) ws.groups)
      (ws.firstDock? handle) none := by
  cases found : ws.locate? handle with
  | none =>
    rw [TabGroup.editFirst_eq_none.mpr (locate?_eq_none.mp found)]
    simp only [Reflects, removeDock, found]
  | some entry =>
    obtain ⟨path, panel⟩ := entry
    obtain ⟨root, same, leads, -, -, holds⟩ := locate?_eq_some found
    obtain ⟨dock, first, taken, changed⟩ := Container.removeDock_of_holds holds
    have whole := filled root same
    rw [editFirst_of_locate? found, firstDock?_of_locate? found, first]
    have pairEq : panel.removeDock handle = (some dock, (panel.removeDock handle).2) := by
      rw [← taken]
    generalize (panel.removeDock handle).2 = rest at changed pairEq
    have emptied : rest.docks = (panel.group.without handle).docks :=
      congrArg TabGroup.docks changed
    simp only [Reflects, removeDock, found, pairEq, TabGroup.lessened, ← emptied]
    by_cases empty : rest.docks.isEmpty = true
    · obtain ⟨left, groups⟩ := leads.groups_vacate whole
      obtain ⟨rooted, remaining⟩ := Remains.groups_root left
      rw [if_pos empty, if_pos empty]
      refine ⟨rfl, ?_, rooted⟩
      rw [groups_eq]
      simpa [Outcome.publish, groups] using remaining
    · rw [if_neg empty, if_neg empty]
      refine ⟨rfl, ?_, ?_⟩
      · simp [groups_eq, Outcome.publish, leads.groups_put, changed]
      · rintro _ ⟨⟩
        refine leads.filled_put whole (.container ?_)
        exact fun none => empty (List.isEmpty_iff.mpr none)

/-- A change of ratio misses, is refused, or puts a split with one other ratio
in the place of the split that is named. -/
theorem changeRatio_cases (ws : Workspace K) (handle : SplitHandle) (index : Int)
    (delta : Point K) :
    (ws.findSplit? handle = none ∧ ws.changeRatio handle index delta = .quiet ws false) ∨
    (∃ split, ws.findSplit? handle = some split ∧
      ¬ (0 ≤ index ∧ index + 1 < split.ratios.length) ∧
      ws.changeRatio handle index delta =
        .refuse ws (.boundaryIndex index split.handle (split.ratios.length - 1))) ∨
    (∃ (split moved : Split K) (root : Area K) (path : Path K),
      ws.findSplit? handle = some split ∧
      (0 ≤ index ∧ index + 1 < split.ratios.length) ∧
      moved = Split.relayout { split with
        ratios := split.ratios.set index.toNat (split.movedRatio index.toNat delta) } ∧
      ws.root = some root ∧ path.Leads root split.toArea ∧
      ws.changeRatio handle index delta =
        .publish { ws with root := some (path.put moved.toArea) } true
          [.ratioChanged handle index.toNat (moved.ratios.getD index.toNat 0)]) := by
  unfold changeRatio
  cases found : ws.findSplit? handle with
  | none => exact .inl ⟨rfl, rfl⟩
  | some split =>
    right
    by_cases valid : 0 ≤ index ∧ index + 1 < split.ratios.length
    · right
      rw [findSplit?] at found
      obtain ⟨root, same, search⟩ := Option.bind_eq_some_iff.mp found
      obtain ⟨-, path, leads, put⟩ := Area.findSplit?_leads search
      refine ⟨split, _, root, path, rfl, valid, rfl, same, leads, ?_⟩
      simp only [Split.changeRatio, if_pos valid, Outcome.quiet, same, Option.bind_some, put]
    · left
      refine ⟨split, rfl, valid, ?_⟩
      simp only [Split.changeRatio, if_neg valid, Outcome.refuse]

theorem changeRatio_groups {ws : Workspace K} (filled : ws.Filled) (handle : SplitHandle)
    (index : Int) (delta : Point K) :
    (ws.changeRatio handle index delta).state.groups = ws.groups ∧
      (ws.changeRatio handle index delta).state.Filled := by
  rcases ws.changeRatio_cases handle index delta with
    ⟨-, missed⟩ | ⟨split, -, -, refused⟩ |
    ⟨split, moved, root, path, -, -, rfl, same, leads, changed⟩
  · rw [missed]
    exact ⟨rfl, filled⟩
  · rw [refused]
    exact ⟨rfl, filled⟩
  · rw [changed]
    have whole := filled root same
    constructor
    · simp only [groups_eq, Outcome.publish, Option.elim_some, same, leads.groups_put,
        leads.groups_eq, Split.groups_relayout]
      rw [Split.toArea, Area.groups_split]
    · rintro _ ⟨⟩
      refine leads.filled_put whole (Split.filled_relayout ?_)
      cases leads.filled whole with
      | split some each => exact .split some each

theorem updateRect_groups {ws : Workspace K} (filled : ws.Filled) (rect : Rect K) :
    (ws.updateRect rect).state.groups = ws.groups ∧ (ws.updateRect rect).state.Filled := by
  constructor
  · rw [groups_eq, groups_eq]
    cases same : ws.root <;> simp [updateRect, Outcome.publish, same]
  · intro root placed
    obtain ⟨origin, same, rfl⟩ := Option.map_eq_some_iff.mp placed
    exact (filled origin same).resize rect

/-- The edits of the tree are edits of the list of its groups. -/
theorem edits_reflect_groups (ws : Workspace K) (filled : ws.Filled) :
    (ws.root = none ↔ ws.groups = []) ∧
    (∀ direction target dock before ratio,
      ws.Reflects (ws.splitBy direction target dock before ratio)
        (TabGroup.editFirst target (TabGroup.beside dock before) ws.groups) true false) ∧
    (∀ target dock,
      ws.Reflects (ws.addTab target dock)
        (TabGroup.editFirst target (fun group => [group.append dock]) ws.groups) true false) ∧
    (∀ handle,
      ws.Reflects (ws.removeDock handle)
        (TabGroup.editFirst handle (TabGroup.lessened handle) ws.groups)
        (ws.firstDock? handle) none) ∧
    (∀ handle,
      ws.Reflects (ws.setActiveDock handle)
        (TabGroup.editFirst handle (fun group => [group.showing handle]) ws.groups)
        true false) ∧
    (∀ handle index delta,
      (ws.changeRatio handle index delta).state.groups = ws.groups ∧
        (ws.changeRatio handle index delta).state.Filled) ∧
    (∀ rect,
      (ws.updateRect rect).state.groups = ws.groups ∧ (ws.updateRect rect).state.Filled) :=
  ⟨root_eq_none_iff filled, splitBy_reflects filled, addTab_reflects filled,
    removeDock_reflects filled, setActiveDock_reflects filled, changeRatio_groups filled,
    updateRect_groups filled⟩

/-- Three panels, two of them stacked beside the first. -/
def stacked : Workspace Float :=
  let panel (docks : List (Dock Float)) (active : Nat) : Area Float :=
    .container { docks, active, rect := .zero, headerHeight := 20.0, dropEdgeFraction := 0.25 }
  let dock (value : Int) : Dock Float := ⟨⟨value⟩, .null, none⟩
  { empty .zero .standard with
    root := some (.split ⟨⟨1⟩, .vertical, [0.5, 1.0], .zero⟩
      [panel [dock 1, dock 2] 1,
        .split ⟨⟨2⟩, .horizontal, [0.5, 1.0], .zero⟩ [panel [dock 3] 0, panel [dock 1] 0]])
    nextSplit := 3, nextDock := 4 }

theorem stacked_filled : stacked.Filled := by
  rintro root ⟨⟩
  have panel : ∀ docks : List (Dock Float), docks ≠ [] → ∀ active rect header edge,
      (Area.container ⟨docks, active, rect, header, edge⟩).Filled :=
    fun docks some active rect header edge => .container some
  refine .split (List.cons_ne_nil _ _) ?_
  simp only [List.forall_mem_cons, List.not_mem_nil, false_implies, implies_true, and_true]
  refine ⟨panel _ (List.cons_ne_nil _ _) _ _ _ _, .split (List.cons_ne_nil _ _) ?_⟩
  simp only [List.forall_mem_cons, List.not_mem_nil, false_implies, implies_true, and_true]
  exact ⟨panel _ (List.cons_ne_nil _ _) _ _ _ _, panel _ (List.cons_ne_nil _ _) _ _ _ _⟩

/-- Taking out the only dock of the middle panel collapses the inner split; the
other panels stay, and the second dock named 1 is not touched by taking out the
first. -/
theorem edits_reflect_groups_of_stacked :
    stacked.Filled ∧
    stacked.Reflects (stacked.removeDock ⟨3⟩)
      (some [⟨[⟨⟨1⟩, .null, none⟩, ⟨⟨2⟩, .null, none⟩], 1⟩, ⟨[⟨⟨1⟩, .null, none⟩], 0⟩])
      (some ⟨⟨3⟩, .null, none⟩) none ∧
    stacked.Reflects (stacked.removeDock ⟨1⟩)
      (some [⟨[⟨⟨2⟩, .null, none⟩], 0⟩, ⟨[⟨⟨3⟩, .null, none⟩], 0⟩,
        ⟨[⟨⟨1⟩, .null, none⟩], 0⟩])
      (some ⟨⟨1⟩, .null, none⟩) none :=
  ⟨stacked_filled,
    (edits_reflect_groups stacked stacked_filled).2.2.2.1 ⟨3⟩,
    (edits_reflect_groups stacked stacked_filled).2.2.2.1 ⟨1⟩⟩

end Workspace

end DockLayout
