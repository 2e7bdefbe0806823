import Mathlib.Data.List.Pairwise
import DockLayout.Proofs.Tree.Targets

/-!
# Positions

An area of a tree is named by its position, the list of child numbers that leads to it
from the root. In the lexicographic order of these lists a split stands before all that is
below it, and what is below a child before what is below the children after it. The visits
go through the positions in this order, and both searches stop at the first position
whose area has what they look for.
-/

set_option autoImplicit false

namespace DockLayout

variable {K : Type}

namespace Area

/-! ## The positions of a tree -/

mutual

def positions : Area K → List (List Nat)
  | .container _ => [[]]
  | .split _ children => [] :: positionsIn children 0

def positionsIn : List (Area K) → Nat → List (List Nat)
  | [], _ => []
  | area :: rest, index => area.positions.map (index :: ·) ++ positionsIn rest (index + 1)

end

theorem mem_positionsIn {children : List (Area K)} {start : Nat} {position : List Nat} :
    position ∈ positionsIn children start ↔
      ∃ index child rest, children[index]? = some child ∧ rest ∈ child.positions ∧
        position = (start + index) :: rest := by
  induction children generalizing start with
  | nil => simp [positionsIn]
  | cons area others ih =>
    rw [positionsIn, List.mem_append, List.mem_map, ih]
    constructor
    · intro listed
      cases listed with
      | inl first =>
        obtain ⟨rest, below, rfl⟩ := first
        exact ⟨0, area, rest, rfl, below, rfl⟩
      | inr later =>
        obtain ⟨index, child, rest, present, below, rfl⟩ := later
        exact ⟨index + 1, child, rest, present, below, by rw [Nat.add_right_comm]; rfl⟩
    · intro listed
      obtain ⟨index, child, rest, present, below, rfl⟩ := listed
      cases index with
      | zero =>
        obtain rfl := Option.some.inj present
        exact .inl ⟨rest, below, rfl⟩
      | succ index =>
        exact .inr ⟨index, child, rest, present, below, by rw [Nat.add_right_comm]; rfl⟩

theorem mem_positions {area : Area K} {position : List Nat} :
    position ∈ area.positions ↔ (area.at? position).isSome := by
  induction area generalizing position with
  | container panel => cases position <;> simp [positions, at?]
  | split frame children ih =>
    cases position with
    | nil => simp [positions, at?]
    | cons index rest =>
      rw [positions, List.mem_cons, mem_positionsIn, at?]
      constructor
      · intro listed
        obtain ⟨place, child, below, present, inside, same⟩ :=
          listed.resolve_left (List.cons_ne_nil index rest)
        rw [Nat.zero_add] at same
        obtain ⟨rfl, rfl⟩ := List.cons.inj same
        rw [present, Option.bind_some]
        exact (ih child (List.mem_of_getElem? present)).mp inside
      · intro found
        obtain ⟨child, present⟩ :=
          Option.isSome_iff_exists.mp (Option.isSome_of_isSome_bind found)
        rw [present, Option.bind_some] at found
        have inside := (ih child (List.mem_of_getElem? present)).mpr found
        exact .inr ⟨index, child, rest, present, inside, by rw [Nat.zero_add]⟩

theorem pairwise_positionsIn {children : List (Area K)}
    (each : ∀ child ∈ children, child.positions.Pairwise (· < ·)) (start : Nat) :
    (positionsIn children start).Pairwise (· < ·) := by
  induction children generalizing start with
  | nil => exact .nil
  | cons area others ih =>
    rw [positionsIn, List.pairwise_append, List.pairwise_map]
    refine ⟨?_, ih (fun child listed => each child (List.mem_cons_of_mem area listed)) _, ?_⟩
    · refine (each area List.mem_cons_self).imp ?_
      intro first second before
      exact List.cons_lt_cons_iff.mpr (.inr ⟨rfl, before⟩)
    · intro first listed second later
      obtain ⟨rest, -, rfl⟩ := List.mem_map.mp listed
      obtain ⟨index, child, below, -, -, rfl⟩ := mem_positionsIn.mp later
      exact List.cons_lt_cons_iff.mpr (.inl (by omega))

/-- The positions are listed in their order, each of them once. -/
theorem pairwise_positions (area : Area K) : area.positions.Pairwise (· < ·) := by
  induction area with
  | container panel => exact List.pairwise_singleton _ _
  | split frame children ih =>
    rw [positions, List.pairwise_cons]
    refine ⟨?_, pairwise_positionsIn ih 0⟩
    intro later listed
    obtain ⟨index, child, rest, -, -, rfl⟩ := mem_positionsIn.mp listed
    exact List.nil_lt_cons _ _

theorem map_positionsIn {lookup : List Nat → Option (Area K)} {children : List (Area K)}
    {start : Nat}
    (each : ∀ child ∈ children, child.positions.map child.at? = child.preorder.map some)
    (leads : ∀ index child rest, children[index]? = some child →
      lookup ((start + index) :: rest) = child.at? rest) :
    (positionsIn children start).map lookup = (preorderEach children).map some := by
  induction children generalizing start with
  | nil => rfl
  | cons area others ih =>
    have below : lookup ∘ (start :: ·) = area.at? := funext fun rest => leads 0 area rest rfl
    have later : ∀ index child rest, others[index]? = some child →
        lookup ((start + 1 + index) :: rest) = child.at? rest := by
      intro index child rest present
      rw [Nat.add_right_comm]
      exact leads (index + 1) child rest present
    rw [positionsIn, preorderEach, List.map_append, List.map_append, List.map_map, below,
      each area List.mem_cons_self,
      ih (fun child listed => each child (List.mem_cons_of_mem area listed)) later]

/-- The areas at the positions, one after the other, are the areas that are visited. -/
theorem map_at?_positions (area : Area K) :
    area.positions.map area.at? = area.preorder.map some := by
  induction area with
  | container panel => rfl
  | split frame children ih =>
    have below : ∀ index child rest, children[index]? = some child →
        (split frame children).at? ((0 + index) :: rest) = child.at? rest := by
      intro index child rest present
      rw [Nat.zero_add, at?, present, Option.bind_some]
    rw [positions, preorder, List.map_cons, List.map_cons, map_positionsIn ih below, at?]

theorem mem_preorder_of_at? {area inner : Area K} {position : List Nat}
    (found : area.at? position = some inner) : inner ∈ area.preorder := by
  have listed : position ∈ area.positions := mem_positions.mpr (by rw [found]; rfl)
  have visited := List.mem_map_of_mem (f := area.at?) listed
  rw [map_at?_positions, found] at visited
  simpa using visited

end Area

/-! ## The way to a position -/

theorem Path.Leads.at?_take {path : Path K} {root target : Area K} (leads : path.Leads root target)
    {depth : Nat} {step : Step K} (passed : path[depth]? = some step) :
    root.at? ((path.take depth).map Step.index) = some step.split.toArea := by
  induction leads generalizing depth with
  | here area => cases passed
  | @down first rest child target present onward ih =>
    cases depth with
    | zero =>
      obtain rfl := Option.some.inj passed
      rfl
    | succ depth =>
      rw [List.take_succ_cons, List.map_cons, Split.toArea, Area.at?, present, Option.bind_some]
      exact ih passed

/-! ## The first position of a kind -/

namespace Area

/-- The area at the position is wanted, and no area at an earlier position is. -/
structure FirstAt (lookup : List Nat → Option (Area K)) (wanted : Area K → Prop)
    (position : List Nat) (area : Area K) : Prop where
  present : lookup position = some area
  matching : wanted area
  earliest : ∀ before < position, ∀ inner, lookup before = some inner → ¬ wanted inner

namespace FirstAt

variable {wanted : Area K → Prop}

theorem root {area : Area K} (matching : wanted area) : FirstAt area.at? wanted [] area where
  present := rfl
  matching := matching
  earliest before earlier := absurd earlier (List.not_lt_nil before)

theorem down {frame : Partition K} {children : List (Area K)} {index : Nat} {child area : Area K}
    {position : List Nat} (listed : children[index]? = some child)
    (first : FirstAt child.at? wanted position area) (above : ¬ wanted (split frame children))
    (before : ∀ other ∈ children.take index, ∀ inner ∈ other.preorder, ¬ wanted inner) :
    FirstAt (split frame children).at? wanted (index :: position) area where
  present := by rw [at?, listed, Option.bind_some, first.present]
  matching := first.matching
  earliest := by
    intro earlier smaller inner found
    cases earlier with
    | nil => exact Option.some.inj found ▸ above
    | cons place rest =>
      rw [at?] at found
      obtain ⟨other, present, below⟩ := Option.bind_eq_some_iff.mp found
      cases List.cons_lt_cons_iff.mp smaller with
      | inl left =>
        have among : other ∈ children.take index := by
          rw [List.mem_iff_getElem?]
          exact ⟨place, by rw [List.getElem?_take_of_lt left, present]⟩
        exact before other among inner (mem_preorder_of_at? below)
      | inr same =>
        obtain ⟨rfl, sooner⟩ := same
        obtain rfl := Option.some.inj (listed.symm.trans present)
        exact first.earliest rest sooner inner below

theorem preorder_eq {root area : Area K} {position : List Nat}
    (first : FirstAt root.at? wanted position area) :
    ∃ front back, root.preorder = front ++ area :: back ∧ ∀ inner ∈ front, ¬ wanted inner := by
  have listed : position ∈ root.positions := mem_positions.mpr (by rw [first.present]; rfl)
  obtain ⟨sooner, later, cut⟩ := List.append_of_mem listed
  have sorted := root.pairwise_positions
  rw [cut, List.pairwise_append] at sorted
  have visits := root.map_at?_positions
  rw [cut, List.map_append, List.map_cons, first.present] at visits
  obtain ⟨front, rest, halves, left, right⟩ := List.map_eq_append_iff.mp visits.symm
  obtain ⟨visited, back, rfl, same, -⟩ := List.map_eq_cons_iff.mp right
  obtain rfl := Option.some.inj same
  refine ⟨front, back, halves, ?_⟩
  intro inner member
  have reached : some inner ∈ sooner.map root.at? := left ▸ List.mem_map_of_mem member
  obtain ⟨before, among, found⟩ := List.mem_map.mp reached
  exact first.earliest before (sorted.2.2 before among position List.mem_cons_self) inner found

end FirstAt

/-! ## The searches -/

theorem mem_dockHandlesIn {handle : DockHandle} {areas : List (Area K)} :
    handle ∈ dockHandlesIn areas ↔ ∃ area ∈ areas, handle ∈ dockHandlesIn [area] := by
  simp [dockHandlesIn]

theorem mem_splitHandlesIn {handle : SplitHandle} {areas : List (Area K)} :
    handle ∈ splitHandlesIn areas ↔ ∃ area ∈ areas, handle ∈ splitHandlesIn [area] := by
  simp [splitHandlesIn]

theorem mem_dockHandlesIn_container {handle : DockHandle} {panel : Container K} :
    handle ∈ dockHandlesIn [container panel] ↔ panel.hasDock handle = true := by
  simp [dockHandlesIn, Container.hasDock]

/-- The search by dock stops at the first position whose area has a dock of the handle. -/
theorem locate?_firstAt {handle : DockHandle} {area : Area K} {path : Path K}
    {panel : Container K} (found : area.locate? handle = some (path, panel)) :
    FirstAt area.at? (fun inner => handle ∈ dockHandlesIn [inner]) (path.map Step.index)
      (container panel) := by
  induction area generalizing path with
  | container shown =>
    rw [locate?] at found
    split at found
    · rename_i holds
      simp only [Option.some.injEq, Prod.mk.injEq] at found
      obtain ⟨rfl, rfl⟩ := found
      exact .root (mem_dockHandlesIn_container.mpr holds)
    · cases found
  | split frame children ih =>
    rw [locate?] at found
    cases search : locateIn handle children 0 with
    | none => simp [search] at found
    | some entry =>
      obtain ⟨index, rest, held⟩ := entry
      simp only [search, Option.some.injEq, Prod.mk.injEq] at found
      obtain ⟨rfl, rfl⟩ := found
      obtain ⟨place, child, same, present, onward, earlier⟩ := locateIn_eq_some search
      rw [Nat.zero_add] at same
      subst same
      refine .down present (ih child (List.mem_of_getElem? present) onward)
        (by simp [dockHandlesIn]) ?_
      intro other among inner visited listed
      exact locate?_eq_none_iff.mp (earlier other among)
        (mem_dockHandlesIn.mpr ⟨inner, visited, listed⟩)

theorem findSplit?_firstAt {handle : SplitHandle} {area : Area K} {found : Split K}
    (search : area.findSplit? handle = some found) :
    ∃ position, FirstAt area.at? (fun inner => handle ∈ splitHandlesIn [inner]) position
      found.toArea := by
  induction area with
  | container panel => simp [findSplit?] at search
  | split frame children ih =>
    rw [findSplit?] at search
    split at search
    · rename_i same
      simp only [Option.some.injEq] at search
      subst search
      exact ⟨[], .root (by simp [splitHandlesIn, same])⟩
    · rename_i other
      obtain ⟨index, child, present, held, earlier, -⟩ :=
        findSplitIn_eq_some (fun area missing new => putSplit_eq_none missing new) search
      obtain ⟨position, first⟩ := ih child (List.mem_of_getElem? present) held
      refine ⟨index :: position, first.down present (by simp [splitHandlesIn, Ne.symm other]) ?_⟩
      intro sibling among inner visited listed
      exact findSplit?_eq_none.mp (earlier sibling among)
        (mem_splitHandlesIn.mpr ⟨inner, visited, listed⟩)

end Area

end DockLayout
