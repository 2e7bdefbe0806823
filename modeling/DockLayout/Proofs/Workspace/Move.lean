import Mathlib.Data.List.Perm.Basic
import DockLayout.Proofs.Workspace.Reachable

/-!
# Moving a dock

A move takes the dock out and drops it again. Taking it out may close panels and
merge splits around the target, but never touches another dock, so a target that
was there before is still there for the drop.
-/

set_option autoImplicit false

namespace DockLayout

variable {K : Type}

/-! ## The dock that is taken out -/

namespace TabGroup

theorem docks_lessened (handle : DockHandle) (group : TabGroup K) :
    (lessened handle group).flatMap docks = (group.without handle).docks := by
  unfold lessened
  split
  · rename_i empty
    exact (List.isEmpty_iff.mp empty).symm
  · simp

theorem handle_at_position {group : TabGroup K} {handle : DockHandle}
    (inside : group.position handle < group.docks.length) :
    group.docks[group.position handle].handle = handle :=
  of_decide_eq_true (List.findIdx_getElem (w := inside))

theorem holds_without {handle other : DockHandle} (different : handle ≠ other)
    {group : TabGroup K} (holds : group.holds other = true) :
    (group.without handle).holds other = true := by
  obtain ⟨dock, listed, named⟩ := List.any_eq_true.mp holds
  obtain ⟨index, inside, rfl⟩ := List.getElem_of_mem listed
  refine List.any_eq_true.mpr ⟨group.docks[index], ?_, named⟩
  refine List.mem_eraseIdx_iff_getElem.mpr ⟨index, inside, ?_, rfl⟩
  rintro rfl
  exact different ((handle_at_position inside).symm.trans (of_decide_eq_true named))

end TabGroup

namespace Container

theorem docks_perm_without {panel : Container K} {handle : DockHandle}
    (holds : panel.group.holds handle = true) :
    ∃ dock, dock.handle = handle ∧
      panel.docks.find? (fun dock => dock.handle = handle) = some dock ∧
      (dock :: (panel.group.without handle).docks).Perm panel.docks := by
  obtain ⟨-, dock, present, named, first⟩ := indexOf?_of_holds holds
  obtain ⟨inside, rfl⟩ := List.getElem?_eq_some_iff.mp present
  exact ⟨_, named, first, List.getElem_cons_eraseIdx_perm inside⟩

end Container

/-! ## The split that is put in -/

namespace Area

def IsPair (handle : SplitHandle) (direction : Direction) (groups : List (TabGroup K))
    (area : Area K) : Prop :=
  ∃ frame first second, area = .split frame [.container first, .container second] ∧
    frame.handle = handle ∧ frame.direction = direction ∧ [first.group, second.group] = groups

variable [Scalar K] {handle : SplitHandle} {direction : Direction} {groups : List (TabGroup K)}

theorem IsPair.resizeEach {frame : Partition K} {first second : Container K}
    (named : frame.handle = handle) (cuts : frame.direction = direction)
    (same : [first.group, second.group] = groups) (rects : List (Rect K)) :
    IsPair handle direction groups
      (.split frame (Area.resizeEach [.container first, .container second] rects)) := by
  match rects with
  | [] => exact ⟨frame, first, second, rfl, named, cuts, same⟩
  | [rect] =>
    exact ⟨frame, { first with rect }, second, by simp [Area.resizeEach, resize], named, cuts, same⟩
  | rect :: other :: rest =>
    exact ⟨frame, { first with rect }, { second with rect := other },
      by simp [Area.resizeEach, resize], named, cuts, same⟩

theorem IsPair.resize {area : Area K} (pair : area.IsPair handle direction groups)
    (rect : Rect K) : (area.resize rect).IsPair handle direction groups := by
  obtain ⟨frame, first, second, rfl, named, cuts, same⟩ := pair
  have moved : ({ frame with rect } : Partition K).handle = handle := named
  unfold Area.resize
  exact IsPair.resizeEach moved cuts same _

theorem mem_resizeEach {areas : List (Area K)} {area : Area K} (listed : area ∈ areas)
    (rects : List (Rect K)) :
    area ∈ Area.resizeEach areas rects ∨
      ∃ rect, area.resize rect ∈ Area.resizeEach areas rects := by
  induction areas generalizing rects with
  | nil => cases listed
  | cons first rest ih =>
    cases rects with
    | nil => exact .inl (by simpa [Area.resizeEach] using listed)
    | cons rect others =>
      unfold Area.resizeEach
      rcases List.mem_cons.mp listed with rfl | later
      · exact .inr ⟨rect, List.mem_cons_self⟩
      · rcases ih later others with kept | ⟨part, placed⟩
        · exact .inl (List.mem_cons_of_mem _ kept)
        · exact .inr ⟨part, List.mem_cons_of_mem _ placed⟩

end Area

theorem Split.isPair [Scalar K] (direction : Direction) (ratio : K) (handle : SplitHandle)
    (rect : Rect K) (first second : Container K) :
    (pair direction ratio handle rect (.container first) (.container second)).toArea.IsPair
      handle direction [first.group, second.group] :=
  Area.IsPair.resizeEach rfl rfl rfl _

theorem Path.Leads.settle_pair [Scalar K] {path : Path K} {root target new : Area K}
    {handle : SplitHandle} {direction : Direction} {groups : List (TabGroup K)}
    (leads : path.Leads root target) (pair : new.IsPair handle direction groups) :
    ∃ area ∈ (path.settle new).preorder, area.IsPair handle direction groups := by
  induction leads with
  | here area => exact ⟨new, Area.mem_preorder_self new, pair⟩
  | @down step rest child target present onward ih =>
    have placed : ∀ area : Area K, area ∈ step.split.children.set step.index area :=
      fun area => List.mem_set (index_lt present) area
    cases rest with
    | nil =>
      rw [Path.settle, Split.replaceChild_state step.split (index_lt present)]
      rcases Area.mem_resizeEach (placed new)
        (step.split.rect.cut step.split.direction step.split.ratios) with kept | ⟨rect, moved⟩
      · exact ⟨new, Area.mem_preorder_of_child kept (Area.mem_preorder_self new), pair⟩
      · exact ⟨new.resize rect,
          Area.mem_preorder_of_child moved (Area.mem_preorder_self _), pair.resize rect⟩
    | cons following rest =>
      obtain ⟨area, below, found⟩ := ih
      rw [Path.settle]
      · exact ⟨area, Area.mem_preorder_of_child (placed _) below, found⟩
      · simp

namespace Workspace

def docks (ws : Workspace K) : List (Dock K) := ws.groups.flatMap TabGroup.docks

theorem mem_dockHandles {ws : Workspace K} {handle : DockHandle} :
    handle ∈ ws.dockHandles ↔ ∃ group ∈ ws.groups, group.holds handle = true := by
  simp only [dockHandles_eq, List.mem_flatMap, TabGroup.holds_iff]

theorem locate?_eq_none_iff {ws : Workspace K} {handle : DockHandle} :
    ws.locate? handle = none ↔ handle ∉ ws.dockHandles := by
  rw [locate?_eq_none, mem_dockHandles]
  simp

theorem exists_locate? {ws : Workspace K} {handle : DockHandle}
    (listed : handle ∈ ws.dockHandles) :
    ∃ path panel, ws.locate? handle = some (path, panel) := by
  cases found : ws.locate? handle with
  | none => exact absurd listed (locate?_eq_none_iff.mp found)
  | some entry => exact ⟨entry.1, entry.2, rfl⟩

variable [Scalar K]

theorem removeDock_of_mem {ws : Workspace K} (filled : ws.Filled) {handle : DockHandle}
    (listed : handle ∈ ws.dockHandles) :
    ∃ dock, dock.handle = handle ∧ (ws.removeDock handle).result = .ok (some dock) ∧
      (ws.removeDock handle).state.Filled ∧
      (dock :: (ws.removeDock handle).state.docks).Perm ws.docks ∧
      ∀ other ∈ ws.dockHandles, handle ≠ other →
        other ∈ (ws.removeDock handle).state.dockHandles := by
  obtain ⟨path, panel, found⟩ := exists_locate? listed
  obtain ⟨root, -, -, groups, -, holds⟩ := locate?_eq_some found
  obtain ⟨dock, named, first, moved⟩ := Container.docks_perm_without holds
  have reflects := removeDock_reflects filled handle
  rw [editFirst_of_locate? found, firstDock?_of_locate? found, first] at reflects
  obtain ⟨answered, left, still⟩ := reflects
  refine ⟨dock, named, answered, still, ?_, ?_⟩
  · have before : ws.docks = path.before.flatMap TabGroup.docks ++
        (panel.docks ++ path.after.flatMap TabGroup.docks) := by
      rw [docks, groups, List.flatMap_append, List.flatMap_cons]
      rfl
    have after : (ws.removeDock handle).state.docks = path.before.flatMap TabGroup.docks ++
        ((panel.group.without handle).docks ++ path.after.flatMap TabGroup.docks) := by
      rw [docks, left, List.flatMap_append, List.flatMap_append, TabGroup.docks_lessened,
        List.append_assoc]
    rw [before, after]
    exact List.perm_middle.symm.trans
      (List.Perm.append_left _ (List.Perm.append_right _ moved))
  · intro other present different
    rw [mem_dockHandles, groups] at present
    rw [mem_dockHandles, left]
    obtain ⟨group, member, holdsOther⟩ := present
    rcases List.mem_append.mp member with earlier | later
    · exact ⟨group, by simp [earlier], holdsOther⟩
    · rcases List.mem_cons.mp later with rfl | later
      · have kept := TabGroup.holds_without different holdsOther
        obtain ⟨survivor, stays, -⟩ := List.any_eq_true.mp kept
        have some : (panel.group.without handle).docks.isEmpty = false :=
          List.isEmpty_eq_false_iff.mpr (List.ne_nil_of_mem stays)
        exact ⟨panel.group.without handle, by simp [TabGroup.lessened, some], kept⟩
      · exact ⟨group, by simp [later], holdsOther⟩

/-! ## The drop -/

theorem splitBy_isPair {ws : Workspace K} {target : DockHandle} {path : Path K}
    {panel : Container K} (found : ws.locate? target = some (path, panel))
    (direction : Direction) (dock : Dock K) (before : Bool) (ratio : Option K) :
    ∃ area ∈ (ws.splitBy direction target dock before ratio).state.areas,
      area.IsPair ⟨ws.nextSplit⟩ direction (TabGroup.beside dock before panel.group) := by
  obtain ⟨root, same, leads, -⟩ := locate?_eq_some found
  simp only [splitBy, found, Outcome.publish, areas, Area.visit_eq]
  apply leads.settle_pair
  cases before with
  | true => exact Split.isPair ..
  | false => exact Split.isPair ..

/-- What a drop at a zone makes of the group that holds the target. -/
def dropped (dock : Dock K) (group : TabGroup K) : DropZone → List (TabGroup K)
  | .center => [group.append dock]
  | .left | .top => [.single dock, group]
  | .right | .bottom => [group, .single dock]

omit [Scalar K] in
theorem docks_dropped (dock : Dock K) (group : TabGroup K) (zone : DropZone) :
    ((dropped dock group zone).flatMap TabGroup.docks).Perm (dock :: group.docks) := by
  cases zone with
  | center | right | bottom => simp [dropped, TabGroup.append, TabGroup.single]
  | left | top => simp [dropped, TabGroup.single]

theorem dropDock_of_locate? {ws : Workspace K} (filled : ws.Filled) {target : DropTarget}
    {path : Path K} {panel : Container K}
    (found : ws.locate? target.handle = some (path, panel)) (dock : Dock K) :
    (ws.dropDock dock target).result = .ok true ∧
      (ws.dropDock dock target).state.groups =
        path.before ++ dropped dock panel.group target.zone ++ path.after ∧
      ∀ direction, target.zone.direction? = some direction →
        ∃ area ∈ (ws.dropDock dock target).state.areas,
          area.IsPair ⟨ws.nextSplit⟩ direction (dropped dock panel.group target.zone) := by
  unfold dropDock
  cases zone : target.zone.direction? with
  | none =>
    have center : target.zone = .center := by
      cases same : target.zone <;> simp [same, DropZone.direction?] at zone ⊢
    have reflects := addTab_reflects filled target.handle dock
    rw [editFirst_of_locate? found] at reflects
    exact ⟨reflects.1, by rw [center]; exact reflects.2.1, by simp⟩
  | some direction =>
    have beside : TabGroup.beside dock target.zone.insertsBefore panel.group =
        dropped dock panel.group target.zone := by
      cases same : target.zone with
      | center => simp [same, DropZone.direction?] at zone
      | _ => rfl
    have reflects := splitBy_reflects filled direction target.handle dock
      target.zone.insertsBefore none
    rw [editFirst_of_locate? found, beside] at reflects
    refine ⟨reflects.1, reflects.2.1, ?_⟩
    rintro _ ⟨⟩
    rw [← beside]
    exact splitBy_isPair found direction dock target.zone.insertsBefore none

theorem removeDock_nextSplit (ws : Workspace K) (handle : DockHandle) :
    (ws.removeDock handle).state.nextSplit = ws.nextSplit := by
  rcases ws.removeDock_eq handle with missing | ⟨dock, root, dissolved, removed, -⟩
  · rw [missing]
    rfl
  · rw [removed]
    rfl

theorem Sound.nextSplit_fresh {regime : Regime K} {ws : Workspace K} (sound : ws.Sound regime) :
    (⟨ws.nextSplit⟩ : SplitHandle) ∉ Area.splitHandlesIn ws.areas := by
  unfold areas
  cases same : ws.root with
  | none => simp [Area.splitHandlesIn]
  | some root =>
    intro listed
    change _ ∈ Area.splitHandlesIn root.visit at listed
    rw [Area.visit_eq] at listed
    exact Int.lt_irrefl _ ((sound.tree root same).1.splitHandles_lt _ listed)

/-! ## The move -/

theorem moveDock_of_blocked {ws : Workspace K} {handle : DockHandle} {target : DropTarget}
    (blocked : handle = target.handle ∨ handle ∉ ws.dockHandles ∨
      target.handle ∉ ws.dockHandles) : ws.moveDock handle target = .quiet ws false := by
  rcases ws.moveDock_cases handle target with ⟨-, nothing⟩ | ⟨different, present, moves⟩
  · exact nothing
  · have missing : handle ∉ ws.dockHandles := by
      rcases blocked with same | missing | absent
      · exact absurd same different
      · exact missing
      · rw [findContainer?, locate?_eq_none_iff.mpr absent] at present
        cases present
    have nothing : ws.removeDock handle = .quiet ws none := by
      rw [removeDock, locate?_eq_none_iff.mpr missing]
    rw [moves, nothing]
    rfl

theorem moveDock_of_free {ws : Workspace K} {handle : DockHandle} {target : DropTarget}
    (different : handle ≠ target.handle) (present : target.handle ∈ ws.dockHandles)
    {dock : Dock K} (removed : (ws.removeDock handle).result = .ok (some dock)) :
    (ws.moveDock handle target).result =
        ((ws.removeDock handle).state.dropDock dock target).result ∧
      (ws.moveDock handle target).state =
        ((ws.removeDock handle).state.dropDock dock target).state := by
  obtain ⟨path, panel, aim⟩ := exists_locate? present
  simp [moveDock, different, findContainer?, aim, Outcome.andThen, removed]

/-- A move either changes nothing, which it does exactly when one of the two docks
is missing or both are the same, or it takes the dock out and drops it at the
first group that then holds the target. No dock is lost and none appears. -/
theorem moveDock_all_or_nothing (ws : Workspace K) (reachable : ws.Reachable)
    (handle : DockHandle) (target : DropTarget) :
    ((handle = target.handle ∨ handle ∉ ws.dockHandles ∨ target.handle ∉ ws.dockHandles) →
      ws.moveDock handle target = .quiet ws false) ∧
    (¬ (handle = target.handle ∨ handle ∉ ws.dockHandles ∨ target.handle ∉ ws.dockHandles) →
      (ws.moveDock handle target).result = .ok true ∧
      (ws.moveDock handle target).state.docks.Perm ws.docks ∧
      ∃ dock before group after,
        dock.handle = handle ∧
        (ws.removeDock handle).result = .ok (some dock) ∧
        (ws.removeDock handle).state.groups = before ++ group :: after ∧
        (∀ other ∈ before, other.holds target.handle = false) ∧
        group.holds target.handle = true ∧
        (ws.moveDock handle target).state.groups =
          before ++ dropped dock group target.zone ++ after ∧
        ∀ direction, target.zone.direction? = some direction →
          (⟨ws.nextSplit⟩ : SplitHandle) ∉ Area.splitHandlesIn ws.areas ∧
          ∃ area ∈ (ws.moveDock handle target).state.areas,
            area.IsPair ⟨ws.nextSplit⟩ direction (dropped dock group target.zone)) := by
  refine ⟨moveDock_of_blocked, ?_⟩
  intro free
  obtain ⟨different, present, aimed⟩ : handle ≠ target.handle ∧ handle ∈ ws.dockHandles ∧
      target.handle ∈ ws.dockHandles := by simpa [not_or] using free
  have sound := reachable.sound
  obtain ⟨dock, named, removed, filled, taken, others⟩ :=
    removeDock_of_mem sound.filled present
  obtain ⟨path, panel, found⟩ := exists_locate? (others target.handle aimed different)
  obtain ⟨root, -, -, groups, skipped, holds⟩ := locate?_eq_some found
  obtain ⟨answered, edited, paired⟩ := dropDock_of_locate? filled found dock
  obtain ⟨result, state⟩ := moveDock_of_free different aimed removed
  rw [result, state]
  refine ⟨answered, ?_, dock, path.before, panel.group, path.after, named, removed, groups,
    skipped, holds, edited, ?_⟩
  · refine List.Perm.trans ?_ taken
    rw [docks, docks, edited, groups]
    simp only [List.flatMap_append, List.flatMap_cons, List.append_assoc]
    have put := docks_dropped dock panel.group target.zone
    apply List.Perm.trans (List.Perm.append_left _ (List.Perm.append_right _ put))
    rw [List.cons_append]
    exact List.perm_middle
  · intro direction cuts
    refine ⟨sound.nextSplit_fresh, ?_⟩
    have pair := paired direction cuts
    rwa [removeDock_nextSplit] at pair

/-- Two panels that share a dock, the second with another tab. -/
def shared : Workspace Float :=
  let dock (value : Int) : Dock Float := ⟨⟨value⟩, .null, none⟩
  ((Session.start (.empty ⟨0.0, 0.0, 1000.0, 800.0⟩ .standard)).run [
    .placeFirst (dock 1),
    .splitBy .vertical ⟨1⟩ (dock 2) false none,
    .addTab ⟨2⟩ (dock 1)]).workspace

theorem shared_reachable : shared.Reachable := ⟨_, ⟨_, _, .empty _ _, rfl⟩, rfl⟩

/-- Its first panel is closed by the move, and the other dock of the same handle
stays. -/
theorem moveDock_all_or_nothing_of_shared :
    shared.Reachable ∧
    shared.moveDock ⟨1⟩ ⟨⟨9⟩, .left⟩ = .quiet shared false ∧
    (shared.moveDock ⟨1⟩ ⟨⟨2⟩, .left⟩).result = .ok true ∧
    (shared.moveDock ⟨1⟩ ⟨⟨2⟩, .left⟩).state.docks.Perm shared.docks := by
  have missing : (⟨9⟩ : DockHandle) ∉ shared.dockHandles := by decide +kernel
  have free : ¬ ((⟨1⟩ : DockHandle) = ⟨2⟩ ∨ (⟨1⟩ : DockHandle) ∉ shared.dockHandles ∨
      (⟨2⟩ : DockHandle) ∉ shared.dockHandles) := by decide +kernel
  have blocked := (moveDock_all_or_nothing shared shared_reachable ⟨1⟩ ⟨⟨9⟩, .left⟩).1
    (.inr (.inr missing))
  have moved := (moveDock_all_or_nothing shared shared_reachable ⟨1⟩ ⟨⟨2⟩, .left⟩).2 free
  exact ⟨shared_reachable, blocked, moved.1, moved.2.1⟩

end Workspace

end DockLayout
