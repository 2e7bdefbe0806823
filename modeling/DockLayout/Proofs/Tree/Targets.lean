import Mathlib.Data.List.Nodup
import Mathlib.Data.List.Pairwise
import DockLayout.Proofs.Tree.Loaded
import DockLayout.Proofs.Tree.PathEdits
import DockLayout.Tree.HitTest

/-!
# What a hit test names

A hit test goes down through the first child that contains the point, and what it answers
is about the area where it stops. When no two splits and no two docks have one handle, the
searches by handle stop at the same area.
-/

set_option autoImplicit false

namespace DockLayout

variable {K : Type}

/-! ## Hit tests -/

section Queries

variable [Scalar K] {p : Point K}

/-- The last boundary of a split is none that could be grabbed. -/
theorem Partition.sizerAt?_lt {frame : Partition K} {index : Nat}
    (grabbed : frame.sizerAt? p = some index) : index + 1 < frame.ratios.length := by
  obtain ⟨inside, -⟩ := List.findIdx?_eq_some_iff_getElem.mp grabbed
  rw [Partition.sizers, Rect.bands, List.length_map, List.length_dropLast] at inside
  omega

namespace Container

theorem dragTarget?_eq_some {panel : Container K} {target : DragTarget}
    (grabbed : panel.dragTarget? p = some target) :
    p ∈ panel.header ∧ ∃ dock ∈ panel.docks, target = .tab dock.handle := by
  rw [dragTarget?] at grabbed
  split at grabbed
  · rename_i strip
    obtain ⟨entry, found, rfl⟩ := Option.map_eq_some_iff.mp grabbed
    exact ⟨strip, entry.1, (List.of_mem_zip (List.mem_of_find?_eq_some found)).1, rfl⟩
  · cases grabbed

theorem dropTarget?_eq_some {panel : Container K} {target : DropTarget}
    (aimed : panel.dropTarget? p = .ok (some target)) :
    p ∈ panel.rect ∧ ∃ dock, panel.activeDock = .ok dock ∧
      target = ⟨dock.handle, if p ∈ panel.header then .center else panel.bodyZone p⟩ := by
  rw [dropTarget?] at aimed
  split at aimed
  · rename_i inside
    cases shown : panel.activeDock with
    | error error => simp [shown] at aimed
    | ok dock =>
      simp only [shown, Except.ok.injEq, Option.some.injEq] at aimed
      exact ⟨inside, dock, rfl, aimed.symm⟩
  · cases aimed

end Container

namespace Area

theorem dragTarget?_sizer {area : Area K} {handle : SplitHandle} {index : Nat}
    {direction : Direction} (grabbed : area.dragTarget? p = some (.sizer handle index direction)) :
    ∃ split : Split K, split.toArea ∈ area.preorder ∧ split.handle = handle ∧
      split.direction = direction ∧ split.sizerAt? p = some index := by
  induction area with
  | container panel =>
    rw [dragTarget?] at grabbed
    obtain ⟨-, dock, -, other⟩ := Container.dragTarget?_eq_some grabbed
    cases other
  | split frame children ih =>
    rw [dragTarget?] at grabbed
    cases band : frame.sizerAt? p with
    | some first =>
      simp only [band, Option.some.injEq, DragTarget.sizer.injEq] at grabbed
      obtain ⟨named, same, along⟩ := grabbed
      exact ⟨⟨frame, children⟩, mem_preorder_self _, named, along, band.trans (congrArg _ same)⟩
    | none =>
      simp only [band, dragTargetIn_eq] at grabbed
      obtain ⟨child, found, below⟩ := Option.bind_eq_some_iff.mp grabbed
      have member := List.mem_of_find?_eq_some found
      obtain ⟨inner, listed, rest⟩ := ih child member below
      exact ⟨inner, mem_preorder_of_child member listed, rest⟩

/-- A tab that is grabbed belongs to a container of the tree. Only where that is the
whole tree has nobody asked whether it contains the point. -/
theorem dragTarget?_tab {area : Area K} {handle : DockHandle}
    (grabbed : area.dragTarget? p = some (.tab handle)) :
    ∃ panel, panel ∈ area.containers ∧ p ∈ panel.header ∧
      (∃ dock ∈ panel.docks, dock.handle = handle) ∧
      (p ∈ panel.rect ∨ area = .container panel) := by
  induction area with
  | container panel =>
    rw [dragTarget?] at grabbed
    obtain ⟨strip, dock, listed, same⟩ := Container.dragTarget?_eq_some grabbed
    exact ⟨panel, mem_containers.mpr (mem_preorder_self _), strip,
      ⟨dock, listed, (DragTarget.tab.inj same).symm⟩, .inr rfl⟩
  | split frame children ih =>
    rw [dragTarget?] at grabbed
    cases band : frame.sizerAt? p with
    | some first => simp [band] at grabbed
    | none =>
      simp only [band, dragTargetIn_eq] at grabbed
      obtain ⟨child, found, below⟩ := Option.bind_eq_some_iff.mp grabbed
      have member := List.mem_of_find?_eq_some found
      have holds : p ∈ child.rect := by simpa using List.find?_some found
      obtain ⟨panel, listed, strip, dock, inside⟩ := ih child member below
      refine ⟨panel, mem_containers_of_child member listed, strip, dock, .inl ?_⟩
      rcases inside with inside | rfl
      · exact inside
      · exact holds

theorem dropTarget?_panel {area : Area K} {target : DropTarget}
    (aimed : area.dropTarget? p = .ok (some target)) :
    ∃ panel, panel ∈ area.containers ∧ panel.dropTarget? p = .ok (some target) := by
  induction area with
  | container panel => exact ⟨panel, mem_containers.mpr (mem_preorder_self _), aimed⟩
  | split frame children ih =>
    rw [dropTarget?, dropTargetIn_eq] at aimed
    split at aimed
    · cases aimed
    · rename_i child found
      have member := List.mem_of_find?_eq_some found
      obtain ⟨panel, listed, below⟩ := ih child member aimed
      exact ⟨panel, mem_containers_of_child member listed, below⟩

end Area

end Queries

/-! ## Searches -/

theorem Path.Leads.mem_preorder {path : Path K} {root target : Area K}
    (leads : path.Leads root target) : target ∈ root.preorder := by
  induction leads with
  | here area => exact Area.mem_preorder_self area
  | down present onward ih => exact Area.mem_preorder_of_child (member present) ih

theorem Path.Leads.mem_put {path : Path K} {root target : Area K} (leads : path.Leads root target)
    (new : Area K) : new ∈ (path.put new).preorder := by
  induction leads with
  | here area => exact Area.mem_preorder_self new
  | down present onward ih =>
    exact Area.mem_preorder_of_child (List.mem_set (index_lt present) _) ih

namespace Area

/-! ### Splits -/

def splitsBelow (area : Area K) : List (Split K) := area.preorder.filterMap split?

theorem mem_splitsBelow {area : Area K} {split : Split K} :
    split ∈ area.splitsBelow ↔ split.toArea ∈ area.preorder := by
  rw [splitsBelow, List.mem_filterMap]
  constructor
  · rintro ⟨inner, listed, same⟩
    cases inner with
    | container panel => cases same
    | split frame children => exact Option.some.inj same ▸ listed
  · exact fun listed => ⟨split.toArea, listed, rfl⟩

theorem splitHandles_eq_map (area : Area K) :
    area.splitHandles = area.splitsBelow.map fun split => split.handle := by
  rw [splitHandles_eq, readings, splitsBelow, List.map_filterMap]

theorem findSplit?_eq_none {handle : SplitHandle} {area : Area K} :
    area.findSplit? handle = none ↔ handle ∉ area.splitHandles := by
  induction area with
  | container panel => simp [findSplit?]
  | split frame children ih =>
    rw [findSplit?, splitHandles_split, List.mem_cons, List.mem_flatMap, not_or]
    by_cases same : frame.handle = handle
    · simp [same]
    · rw [if_neg same, findSplitIn_eq_none]
      constructor
      · intro missing
        refine ⟨Ne.symm same, ?_⟩
        rintro ⟨child, listed, below⟩
        exact (ih child listed).mp (missing child listed) below
      · rintro ⟨-, nowhere⟩ child listed
        exact (ih child listed).mpr fun below => nowhere ⟨child, listed, below⟩

theorem findSplit?_of_nodup {root : Area K} {split : Split K}
    (apart : root.splitHandles.Nodup) (listed : split.toArea ∈ root.preorder) :
    root.findSplit? split.handle = some split := by
  have member := mem_splitsBelow.mpr listed
  rw [splitHandles_eq_map] at apart
  cases found : root.findSplit? split.handle with
  | none =>
    have missing := findSplit?_eq_none.mp found
    rw [splitHandles_eq_map] at missing
    exact absurd (List.mem_map_of_mem member) missing
  | some other =>
    obtain ⟨named, path, leads, -⟩ := findSplit?_leads found
    have present := mem_splitsBelow.mpr leads.mem_preorder
    exact congrArg some (List.inj_on_of_nodup_map apart present member named)

theorem findSplitIn_putSplitIn {handle : SplitHandle} {new : Split K} {children : List (Area K)}
    (each : ∀ child ∈ children, (child.putSplit handle new).bind (findSplit? handle) =
      (child.findSplit? handle).map fun _ => new) :
    (putSplitIn handle new children).bind (findSplitIn handle) =
      (findSplitIn handle children).map fun _ => new := by
  induction children with
  | nil => rfl
  | cons child rest ih =>
    have first := each child List.mem_cons_self
    have later := ih fun other listed => each other (List.mem_cons_of_mem child listed)
    rw [putSplitIn, findSplitIn]
    cases found : child.findSplit? handle with
    | none =>
      rw [putSplit_eq_none found new]
      simp only [← later]
      cases putSplitIn handle new rest with
      | none => rfl
      | some changed => simp only [Option.map_some, Option.bind_some, findSplitIn, found]
    | some split =>
      rw [found, Option.map_some] at first
      obtain ⟨changed, put, search⟩ := Option.bind_eq_some_iff.mp first
      simp only [put, Option.bind_some, findSplitIn, search, Option.map_some]

/-- Once a split is replaced by another one of its handle, this one is found. -/
theorem findSplit?_putSplit {handle : SplitHandle} {new : Split K} (named : new.handle = handle)
    (area : Area K) : (area.putSplit handle new).bind (findSplit? handle) =
      (area.findSplit? handle).map fun _ => new := by
  induction area with
  | container panel => rfl
  | split frame children ih =>
    rw [putSplit, findSplit?]
    by_cases same : frame.handle = handle
    · rw [if_pos same, if_pos same, Option.bind_some, Option.map_some, Split.toArea, findSplit?,
        if_pos named]
    · rw [if_neg same, if_neg same, ← findSplitIn_putSplitIn ih]
      cases putSplitIn handle new children with
      | none => rfl
      | some changed => simp only [Option.map_some, Option.bind_some, findSplit?, if_neg same]

/-! ### Docks -/

/-- Where no other dock has its handle, a dock leads to its container. -/
theorem locate?_of_nodup {root : Area K} {panel : Container K} {dock : Dock K}
    (apart : (dockHandlesIn root.preorder).Nodup) (listed : panel ∈ root.containers)
    (member : dock ∈ panel.docks) :
    ∃ path, root.locate? dock.handle = some (path, panel) := by
  have named : dock.handle ∈ panel.docks.map Dock.handle := List.mem_map_of_mem member
  rw [dockHandlesIn_preorder, groups, List.flatMap_map, List.nodup_flatMap] at apart
  cases found : root.locate? dock.handle with
  | none =>
    have missing := locate?_eq_none_iff.mp found
    rw [dockHandlesIn_preorder] at missing
    exact absurd (List.mem_flatMap.mpr ⟨panel.group, List.mem_map_of_mem listed, named⟩) missing
  | some entry =>
    obtain ⟨path, other⟩ := entry
    have present := mem_containers.mpr (locate?_leads found).mem_preorder
    have shared := TabGroup.holds_iff.mp (locate?_first found).1
    refine ⟨path, ?_⟩
    by_contra different
    have distinct : panel ≠ other := fun equal => different (by rw [equal])
    have symmetric : Std.Symm (Function.onFun List.Disjoint fun panel : Container K =>
        panel.group.docks.map Dock.handle) := ⟨fun _ _ disjoint _ left right => disjoint right left⟩
    exact apart.2.forall listed present distinct named shared

end Area

end DockLayout
