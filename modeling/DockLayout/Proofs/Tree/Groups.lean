import Mathlib.Data.List.Basic
import DockLayout.Proofs.Tree.Route
import DockLayout.Workspace.Edit

/-!
# Groups of tabs

A layout without its geometry is the list of its containers' tabs from left to
right. Placing areas does not change the list, and putting an area at the end of
a route changes only the part of the list that the area stands for.
-/

set_option autoImplicit false

namespace DockLayout

variable {K : Type}

/-! ## One group -/

structure TabGroup (K : Type) where
  docks : List (Dock K)
  active : Nat

namespace TabGroup

def holds (group : TabGroup K) (handle : DockHandle) : Bool :=
  group.docks.any fun dock => dock.handle = handle

theorem holds_iff {group : TabGroup K} {handle : DockHandle} :
    group.holds handle = true ↔ handle ∈ group.docks.map Dock.handle := by
  simp [holds]

/-- The position of the first dock with the handle, or the number of docks. -/
def position (group : TabGroup K) (handle : DockHandle) : Nat :=
  group.docks.findIdx fun dock => dock.handle = handle

def single (dock : Dock K) : TabGroup K := ⟨[dock], 0⟩

def append (group : TabGroup K) (dock : Dock K) : TabGroup K :=
  ⟨group.docks ++ [dock], group.docks.length⟩

/-- Without the first dock with the handle. What was shown stays shown, or gives
way to the next tab, or to the previous one when it was the last. -/
def without (group : TabGroup K) (handle : DockHandle) : TabGroup K :=
  let position := group.position handle
  let rest := group.docks.eraseIdx position
  ⟨rest, if position < group.active ∨ rest.length ≤ group.active then group.active - 1
    else group.active⟩

def showing (group : TabGroup K) (handle : DockHandle) : TabGroup K :=
  { group with active := group.position handle }

end TabGroup

namespace Container

def group (panel : Container K) : TabGroup K := ⟨panel.docks, panel.active⟩

theorem hasDock_eq (panel : Container K) (handle : DockHandle) :
    panel.hasDock handle = panel.group.holds handle := rfl

theorem group_appendDock (panel : Container K) (dock : Dock K) :
    (panel.appendDock dock).group = panel.group.append dock := rfl

theorem indexOf?_of_holds {panel : Container K} {handle : DockHandle}
    (holds : panel.group.holds handle = true) :
    panel.indexOf? handle = some (panel.group.position handle) ∧
      ∃ dock, panel.docks[panel.group.position handle]? = some dock ∧
        dock.handle = handle ∧
        panel.docks.find? (fun dock => dock.handle = handle) = some dock := by
  obtain ⟨dock, listed, named⟩ := List.any_eq_true.mp holds
  have inside : panel.group.position handle < panel.docks.length :=
    List.findIdx_lt_length_of_exists ⟨dock, listed, named⟩
  have found : decide (panel.docks[panel.group.position handle].handle = handle) = true :=
    List.findIdx_getElem (w := inside)
  refine ⟨List.findIdx?_eq_some_of_exists ⟨dock, listed, named⟩,
    panel.docks[panel.group.position handle], List.getElem?_eq_getElem inside,
    of_decide_eq_true found, ?_⟩
  rw [List.find?_eq_some_iff_getElem]
  refine ⟨found, panel.group.position handle, inside, rfl, ?_⟩
  intro earlier before
  have other := of_decide_eq_false (List.not_of_lt_findIdx before)
  simpa [group] using other

theorem removeDock_of_holds {panel : Container K} {handle : DockHandle}
    (holds : panel.group.holds handle = true) :
    ∃ dock, panel.docks.find? (fun dock => dock.handle = handle) = some dock ∧
      (panel.removeDock handle).1 = some dock ∧
      (panel.removeDock handle).2.group = panel.group.without handle := by
  obtain ⟨index, dock, present, -, first⟩ := indexOf?_of_holds holds
  refine ⟨dock, first, ?_, ?_⟩
  · simp only [removeDock, index]
    exact present
  · simp only [removeDock, index]
    rfl

theorem setActive_of_holds {panel : Container K} {handle : DockHandle}
    (holds : panel.group.holds handle = true) :
    (panel.setActive handle).1 = true ∧
      (panel.setActive handle).2.group = panel.group.showing handle := by
  obtain ⟨index, -⟩ := indexOf?_of_holds holds
  simp only [setActive, index, true_and]
  rfl

end Container

/-! ## The groups of a tree -/

namespace Area

theorem mem_preorder_self (area : Area K) : area ∈ area.preorder := by
  cases area <;> simp [preorder]

theorem mem_preorder_of_child {frame : Partition K} {children : List (Area K)}
    {child area : Area K} (listed : child ∈ children) (below : area ∈ child.preorder) :
    area ∈ (split frame children).preorder := by
  rw [preorder, preorderEach_eq]
  exact List.mem_cons_of_mem _ (List.mem_flatMap.mpr ⟨child, listed, below⟩)

theorem child_mem_preorder {s : Split K} {child : Area K} (listed : child ∈ s.children) :
    child ∈ s.toArea.preorder :=
  mem_preorder_of_child listed (mem_preorder_self child)

theorem mem_preorder_trans {area middle inner : Area K} (listed : middle ∈ area.preorder)
    (below : inner ∈ middle.preorder) : inner ∈ area.preorder := by
  induction area with
  | container panel =>
    rw [preorder, List.mem_singleton] at listed
    exact listed ▸ below
  | split frame children ih =>
    rw [preorder, preorderEach_eq] at listed
    rcases List.mem_cons.mp listed with rfl | deeper
    · exact below
    · obtain ⟨child, present, inside⟩ := List.mem_flatMap.mp deeper
      exact mem_preorder_of_child present (ih child present inside)

theorem mem_containers {area : Area K} {panel : Container K} :
    panel ∈ area.containers ↔ .container panel ∈ area.preorder := by
  rw [containers, List.mem_filterMap]
  constructor
  · rintro ⟨inner, listed, same⟩
    cases inner with
    | container other => exact Option.some.inj same ▸ listed
    | split frame children => cases same
  · exact fun listed => ⟨.container panel, listed, rfl⟩

theorem mem_containers_of_child {frame : Partition K} {children : List (Area K)} {child : Area K}
    {panel : Container K} (member : child ∈ children) (listed : panel ∈ child.containers) :
    panel ∈ (split frame children).containers :=
  mem_containers.mpr (mem_preorder_of_child member (mem_containers.mp listed))

@[simp] theorem containers_container (panel : Container K) :
    (container panel).containers = [panel] := by
  simp [containers, preorder, container?]

@[simp] theorem containers_split (frame : Partition K) (children : List (Area K)) :
    (split frame children).containers = children.flatMap containers := by
  simp only [containers, preorder, List.filterMap_cons, container?, preorderEach_eq,
    List.filterMap_flatMap]
  rfl

def groups (area : Area K) : List (TabGroup K) := area.containers.map Container.group

@[simp] theorem groups_container (panel : Container K) :
    (container panel).groups = [panel.group] := by
  rw [groups, containers_container, List.map_singleton]

@[simp] theorem groups_split (frame : Partition K) (children : List (Area K)) :
    (split frame children).groups = children.flatMap groups := by
  rw [groups, containers_split, List.map_flatMap]
  rfl

theorem dockHandlesIn_preorder (area : Area K) :
    dockHandlesIn area.preorder =
      area.groups.flatMap fun group => group.docks.map Dock.handle := by
  induction area with
  | container panel => simp [dockHandlesIn, preorder, Container.group]
  | split frame children ih =>
    have each : ∀ child ∈ children, dockHandlesIn child.preorder =
        child.groups.flatMap fun group => group.docks.map Dock.handle := ih
    rw [groups_split, List.flatMap_assoc, preorder, preorderEach_eq]
    simp only [dockHandlesIn, List.flatMap_cons, List.nil_append, List.flatMap_assoc] at each ⊢
    exact List.flatMap_congr each

/-- Whoever is neither an empty container nor a split without children, and has
no such area below. -/
inductive Filled : Area K → Prop
  | container {panel : Container K} (some : panel.docks ≠ []) : Filled (.container panel)
  | split {frame : Partition K} {children : List (Area K)} (some : children ≠ [])
      (each : ∀ child ∈ children, Filled child) : Filled (.split frame children)

theorem groups_ne_nil {area : Area K} (filled : area.Filled) : area.groups ≠ [] := by
  induction filled with
  | container some => simp
  | @split frame children some each ih =>
    rw [groups_split]
    intro empty
    obtain ⟨child, listed⟩ := List.exists_mem_of_ne_nil children some
    exact ih child listed (List.flatMap_eq_nil_iff.mp empty child listed)

theorem Filled.children_ne_nil {frame : Partition K} {children : List (Area K)}
    (filled : (Area.split frame children).Filled) : children ≠ [] := by
  cases filled with
  | split some each => exact some

theorem filled_child {frame : Partition K} {children : List (Area K)} {child : Area K}
    (filled : (Area.split frame children).Filled) (listed : child ∈ children) :
    child.Filled := by
  cases filled with
  | split some each => exact each child listed

/-! ## Placing -/

section Placing

variable [Scalar K]

theorem map_resizeEach {α : Type} (read : Area K → α) {areas : List (Area K)}
    (still : ∀ area ∈ areas, ∀ rect, read (area.resize rect) = read area) (rects : List (Rect K)) :
    (resizeEach areas rects).map read = areas.map read := by
  induction areas generalizing rects with
  | nil => rfl
  | cons area rest ih =>
    cases rects with
    | nil => rfl
    | cons first others =>
      have here := still area List.mem_cons_self first
      have later := ih (fun other listed => still other (List.mem_cons_of_mem area listed)) others
      rw [resizeEach, List.map_cons, List.map_cons, here, later]

theorem flatMap_resizeEach {α : Type} (list : Area K → List α) {areas : List (Area K)}
    (still : ∀ area ∈ areas, ∀ rect, list (area.resize rect) = list area) (rects : List (Rect K)) :
    (resizeEach areas rects).flatMap list = areas.flatMap list := by
  rw [List.flatMap_def, List.flatMap_def, map_resizeEach list still]

@[simp] theorem groups_resize (area : Area K) (rect : Rect K) :
    (area.resize rect).groups = area.groups := by
  induction area generalizing rect with
  | container panel => simp [resize, Container.group]
  | split frame children ih =>
    rw [resize, groups_split, groups_split, flatMap_resizeEach groups ih]

@[simp] theorem groups_resizeEach (areas : List (Area K)) (rects : List (Rect K)) :
    (resizeEach areas rects).flatMap groups = areas.flatMap groups :=
  flatMap_resizeEach groups (fun area _ => groups_resize area) rects

theorem resizeEach_mem {areas : List (Area K)} {rects : List (Rect K)} {area : Area K}
    (listed : area ∈ resizeEach areas rects) :
    ∃ origin ∈ areas, (rects.length < areas.length ∧ area = origin) ∨
      ∃ rect ∈ rects, area = origin.resize rect := by
  induction areas generalizing rects with
  | nil => simp [resizeEach] at listed
  | cons first rest ih =>
    cases rects with
    | nil => exact ⟨area, by simpa [resizeEach] using listed, .inl ⟨Nat.succ_pos _, rfl⟩⟩
    | cons rect others =>
      rw [resizeEach] at listed
      cases List.mem_cons.mp listed with
      | inl same => exact ⟨first, List.mem_cons_self, .inr ⟨rect, List.mem_cons_self, same⟩⟩
      | inr later =>
        obtain ⟨origin, present, ⟨fewer, same⟩ | ⟨part, given, same⟩⟩ := ih later
        · exact ⟨origin, List.mem_cons_of_mem first present,
            .inl ⟨Nat.succ_lt_succ fewer, same⟩⟩
        · exact ⟨origin, List.mem_cons_of_mem first present,
            .inr ⟨part, List.mem_cons_of_mem rect given, same⟩⟩

theorem Filled.resize {area : Area K} (filled : area.Filled) (rect : Rect K) :
    (area.resize rect).Filled := by
  induction filled generalizing rect with
  | container some =>
    unfold Area.resize
    exact .container some
  | @split frame children some each ih =>
    unfold Area.resize
    refine .split ?_ ?_
    · intro empty
      have count := length_resizeEach children (rect.cut frame.direction frame.ratios)
      rw [empty] at count
      exact some (List.length_eq_zero_iff.mp count.symm)
    · intro child listed
      obtain ⟨origin, present, ⟨-, same⟩ | ⟨part, -, same⟩⟩ := resizeEach_mem listed
      · rw [same]
        exact each origin present
      · rw [same]
        exact ih origin present part

end Placing

end Area

namespace Split

variable [Scalar K]

@[simp] theorem groups_relayout (s : Split K) :
    s.relayout.toArea.groups = s.children.flatMap Area.groups := by
  simp [relayout, toArea]

theorem filled_relayout {s : Split K} (filled : s.toArea.Filled) : s.relayout.toArea.Filled :=
  filled.resize s.rect

end Split

end DockLayout
