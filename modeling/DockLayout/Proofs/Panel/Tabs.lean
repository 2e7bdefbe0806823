import Mathlib.Data.List.Basic
import DockLayout.Proofs.Tree.Loaded

/-!
# The tab that is shown

A container keeps the position of the tab it shows, and moves it when docks are taken out
in front of it. What that is good for is said without positions: the tabs are those before
the shown one, the shown one and those after it, and an edit elsewhere leaves the shown
one where it is in this row.
-/

set_option autoImplicit false

namespace DockLayout

variable {K : Type}

/-! ## Edits of tabs -/

inductive TabEdit (K : Type) where
  | append (dock : Dock K)
  | remove (handle : DockHandle)
  | activate (handle : DockHandle)

def TabEdit.onDocks (docks : List (Dock K)) : TabEdit K → List (Dock K)
  | .append dock => docks ++ [dock]
  | .remove handle => docks.eraseP fun dock => dock.handle = handle
  | .activate _ => docks

namespace Container

def apply (panel : Container K) : TabEdit K → Container K
  | .append dock => panel.appendDock dock
  | .remove handle => (panel.removeDock handle).2
  | .activate handle => (panel.setActive handle).2

def run (panel : Container K) (edits : List (TabEdit K)) : Container K :=
  edits.foldl apply panel

/-- Put together from one dock, or read. -/
inductive Built [Scalar K] : Container K → Prop
  | single (dock : Dock K) (rect : Rect K) (headerHeight dropEdgeFraction : K) :
      Built (.single dock rect headerHeight dropEdgeFraction)
  | read {value : Json K} {panel : Container K} (decoded : Container.decode value = .ok panel) :
      Built panel

/-! ## The first dock with a handle -/

section First

variable {panel : Container K} {handle : DockHandle} {front back : List (Dock K)} {dock : Dock K}

theorem indexOf?_of_absent (absent : ∀ dock ∈ panel.docks, dock.handle ≠ handle) :
    panel.indexOf? handle = none := by
  rw [indexOf?, List.findIdx?_eq_none_iff]
  intro dock listed
  exact decide_eq_false (absent dock listed)

theorem indexOf?_of_first (docks : panel.docks = front ++ dock :: back)
    (before : ∀ other ∈ front, other.handle ≠ dock.handle) :
    panel.indexOf? dock.handle = some front.length := by
  have none : front.findIdx? (fun other => other.handle = dock.handle) = none := by
    rw [List.findIdx?_eq_none_iff]
    intro other listed
    exact decide_eq_false (before other listed)
  rw [indexOf?, docks, List.findIdx?_append, none, List.findIdx?_cons]
  simp

theorem removeDock_of_first (docks : panel.docks = front ++ dock :: back)
    (before : ∀ other ∈ front, other.handle ≠ dock.handle) :
    panel.removeDock dock.handle = (some dock, { panel with
      docks := front ++ back
      active := if front.length < panel.active ∨ (front ++ back).length ≤ panel.active
        then panel.active - 1 else panel.active }) := by
  have rest : panel.docks.eraseIdx front.length = front ++ back := by
    rw [docks, List.eraseIdx_append_of_length_le (Nat.le_refl _)]
    simp
  have taken : panel.docks[front.length]? = some dock := by simp [docks]
  simp only [removeDock, indexOf?_of_first docks before, rest, taken]

theorem setActive_of_first (docks : panel.docks = front ++ dock :: back)
    (before : ∀ other ∈ front, other.handle ≠ dock.handle) :
    panel.setActive dock.handle = (true, { panel with active := front.length }) := by
  simp only [setActive, indexOf?_of_first docks before]

theorem absent_or_first (docks : List (Dock K)) (handle : DockHandle) :
    (∀ dock ∈ docks, dock.handle ≠ handle) ∨
      ∃ front dock back, docks = front ++ dock :: back ∧ dock.handle = handle ∧
        ∀ other ∈ front, other.handle ≠ dock.handle := by
  by_cases absent : ∀ dock ∈ docks, dock.handle ≠ handle
  · exact .inl absent
  · right
    obtain ⟨dock, found⟩ : ∃ dock, docks.find? (fun dock => dock.handle = handle) = some dock := by
      rw [← Option.isSome_iff_exists, List.find?_isSome]
      simpa using absent
    obtain ⟨named, front, back, split, before⟩ := List.find?_eq_some_iff_append.mp found
    have named : dock.handle = handle := of_decide_eq_true named
    refine ⟨front, dock, back, split, named, ?_⟩
    intro other listed
    have differs := before other listed
    simpa [named] using differs

end First

end Container

/-! ## Rows of tabs -/

/-- Tabs in a row, cut at the one that is shown. -/
structure Row (K : Type) where
  before : List (Dock K)
  shown : Dock K
  after : List (Dock K)

namespace Row

def tabs : Option (Row K) → List (Dock K)
  | none => []
  | some row => row.before ++ row.shown :: row.after

/-- What an edit makes of a row. The shown tab gives way to one that is added and to one
that is asked for, and when it is taken out to the next one, or to the previous one where
there is no next. -/
inductive Turns : Option (Row K) → TabEdit K → Option (Row K) → Prop
  | appended (row : Option (Row K)) (dock : Dock K) :
      Turns row (.append dock) (some ⟨tabs row, dock, []⟩)
  | activated {row : Option (Row K)} {front back : List (Dock K)} {dock : Dock K}
      (present : tabs row = front ++ dock :: back)
      (first : ∀ other ∈ front, other.handle ≠ dock.handle) :
      Turns row (.activate dock.handle) (some ⟨front, dock, back⟩)
  | notActivated {row : Option (Row K)} {handle : DockHandle}
      (absent : ∀ dock ∈ tabs row, dock.handle ≠ handle) : Turns row (.activate handle) row
  | notRemoved {row : Option (Row K)} {handle : DockHandle}
      (absent : ∀ dock ∈ tabs row, dock.handle ≠ handle) : Turns row (.remove handle) row
  | removedBefore {front back after : List (Dock K)} {dock shown : Dock K}
      (first : ∀ other ∈ front, other.handle ≠ dock.handle) :
      Turns (some ⟨front ++ dock :: back, shown, after⟩) (.remove dock.handle)
        (some ⟨front ++ back, shown, after⟩)
  | removedAfter {before front back : List (Dock K)} {dock shown : Dock K}
      (first : ∀ other ∈ before ++ shown :: front, other.handle ≠ dock.handle) :
      Turns (some ⟨before, shown, front ++ dock :: back⟩) (.remove dock.handle)
        (some ⟨before, shown, front ++ back⟩)
  | next {before rest : List (Dock K)} {shown next : Dock K}
      (first : ∀ other ∈ before, other.handle ≠ shown.handle) :
      Turns (some ⟨before, shown, next :: rest⟩) (.remove shown.handle)
        (some ⟨before, next, rest⟩)
  | previous {front : List (Dock K)} {previous shown : Dock K}
      (first : ∀ other ∈ front ++ [previous], other.handle ≠ shown.handle) :
      Turns (some ⟨front ++ [previous], shown, []⟩) (.remove shown.handle)
        (some ⟨front, previous, []⟩)
  | emptied (shown : Dock K) : Turns (some ⟨[], shown, []⟩) (.remove shown.handle) none

end Row

namespace Container

def row? (panel : Container K) : Option (Row K) :=
  panel.docks[panel.active]?.map fun shown =>
    ⟨panel.docks.take panel.active, shown, panel.docks.drop (panel.active + 1)⟩

/-- A dock is shown whenever there is one, and the position is zero when there is none. -/
structure Settled (panel : Container K) : Prop where
  shown : panel.docks ≠ [] → panel.active < panel.docks.length
  empty : panel.docks = [] → panel.active = 0

section Rows

variable {panel : Container K} {before after : List (Dock K)} {shown : Dock K}

theorem row?_of_eq (docks : panel.docks = before ++ shown :: after)
    (active : panel.active = before.length) : panel.row? = some ⟨before, shown, after⟩ := by
  rw [row?, docks, active]
  simp

theorem Settled.of_eq (docks : panel.docks = before ++ shown :: after)
    (active : panel.active = before.length) : panel.Settled where
  shown := by
    intro some
    simp [docks, active]
  empty := by
    intro none
    simp [none] at docks

theorem Settled.cases (settled : panel.Settled) :
    panel.docks = [] ∧ panel.active = 0 ∨ ∃ before shown after,
      panel.docks = before ++ shown :: after ∧ panel.active = before.length := by
  by_cases none : panel.docks = []
  · exact .inl ⟨none, settled.empty none⟩
  · right
    have inside := settled.shown none
    refine ⟨panel.docks.take panel.active, panel.docks[panel.active],
      panel.docks.drop (panel.active + 1), ?_, ?_⟩
    · rw [List.getElem_cons_drop, List.take_append_drop]
    · rw [List.length_take]
      omega

theorem Settled.tabs_row? (settled : panel.Settled) : Row.tabs panel.row? = panel.docks := by
  rcases settled.cases with ⟨none, -⟩ | ⟨before, shown, after, docks, active⟩
  · simp [row?, none, Row.tabs]
  · rw [row?_of_eq docks active, docks]
    rfl

end Rows

/-! ## One edit -/

section Edits

variable {panel : Container K}

theorem docks_apply (panel : Container K) (edit : TabEdit K) :
    (panel.apply edit).docks = edit.onDocks panel.docks := by
  cases edit with
  | append dock => rfl
  | remove handle =>
    rcases absent_or_first panel.docks handle with absent | ⟨front, dock, back, docks, rfl, first⟩
    · have kept : panel.docks.eraseP (fun dock => dock.handle = handle) = panel.docks := by
        apply List.eraseP_of_forall_not
        simpa using absent
      simp only [apply, removeDock, indexOf?_of_absent absent, TabEdit.onDocks, kept]
    · have none : ∀ other ∈ front, ¬ decide (other.handle = dock.handle) = true := by
        simpa using first
      simp only [apply, removeDock_of_first docks first, TabEdit.onDocks]
      rw [docks, List.eraseP_append_right _ none, List.eraseP_cons_of_pos (by simp)]
  | activate handle =>
    rcases absent_or_first panel.docks handle with absent | ⟨front, dock, back, docks, rfl, first⟩
    · simp only [apply, setActive, indexOf?_of_absent absent, TabEdit.onDocks]
    · simp only [apply, setActive_of_first docks first, TabEdit.onDocks]

theorem turns_of_eq {row : Option (Row K)} {edit : TabEdit K} {before after : List (Dock K)}
    {shown : Dock K} (turns : Row.Turns row edit (some ⟨before, shown, after⟩))
    (docks : panel.docks = before ++ shown :: after) (active : panel.active = before.length) :
    Row.Turns row edit panel.row? ∧ panel.Settled := by
  rw [row?_of_eq docks active]
  exact ⟨turns, .of_eq docks active⟩

theorem append_turns (settled : panel.Settled) (dock : Dock K) :
    Row.Turns panel.row? (.append dock) (panel.appendDock dock).row? ∧
      (panel.appendDock dock).Settled := by
  have appended := Row.Turns.appended panel.row? dock
  rw [settled.tabs_row?] at appended
  exact turns_of_eq appended rfl rfl

theorem activate_turns (settled : panel.Settled) (handle : DockHandle) :
    Row.Turns panel.row? (.activate handle) (panel.setActive handle).2.row? ∧
      (panel.setActive handle).2.Settled := by
  rcases absent_or_first panel.docks handle with absent | ⟨front, dock, back, docks, rfl, first⟩
  · simp only [setActive, indexOf?_of_absent absent]
    rw [← settled.tabs_row?] at absent
    exact ⟨.notActivated absent, settled⟩
  · rw [setActive_of_first docks first]
    exact turns_of_eq (.activated (settled.tabs_row?.trans docks) first) docks rfl

/-- Of two cuts of one list, the first is left of the second, the same, or right of it. -/
theorem cut_cases {α : Type} {front back before after : List α} {x y : α}
    (same : front ++ x :: back = before ++ y :: after) :
    (∃ middle, before = front ++ x :: middle ∧ back = middle ++ y :: after) ∨
      (front = before ∧ x = y ∧ back = after) ∨
      ∃ middle, front = before ++ y :: middle ∧ after = middle ++ x :: back := by
  rcases List.append_eq_append_iff.mp same with ⟨middle, left, right⟩ | ⟨middle, left, right⟩
  · cases middle with
    | nil =>
      injection right with here rest
      exact .inr (.inl ⟨by simpa using left.symm, here, rest⟩)
    | cons z rest =>
      injection right with here later
      exact .inl ⟨rest, here ▸ left, later⟩
  · cases middle with
    | nil =>
      injection right with here rest
      exact .inr (.inl ⟨by simpa using left, here.symm, rest.symm⟩)
    | cons z rest =>
      injection right with here later
      exact .inr (.inr ⟨rest, here ▸ left, later⟩)

theorem removeShown_turns {before after : List (Dock K)} {shown : Dock K}
    (docks : panel.docks = before ++ shown :: after) (active : panel.active = before.length)
    (first : ∀ other ∈ before, other.handle ≠ shown.handle) :
    Row.Turns (some ⟨before, shown, after⟩) (.remove shown.handle)
        (panel.removeDock shown.handle).2.row? ∧
      (panel.removeDock shown.handle).2.Settled := by
  rw [removeDock_of_first docks first]
  cases after with
  | cons next rest =>
    have still : ¬ (before.length < panel.active ∨
        (before ++ next :: rest).length ≤ panel.active) := by
      simp [active]
    exact turns_of_eq (.next first) rfl ((if_neg still).trans active)
  | nil =>
    have last : before.length < panel.active ∨ (before ++ []).length ≤ panel.active := by
      simp [active]
    rcases List.eq_nil_or_concat before with rfl | ⟨front, previous, rfl⟩
    · -- nothing is left, and the position goes to zero
      simp only [active, List.nil_append, List.length_nil, Nat.zero_sub, ite_self]
      exact ⟨.emptied shown, fun some => absurd rfl some, fun _ => rfl⟩
    · rw [List.concat_eq_append] at first active last ⊢
      refine turns_of_eq (.previous first) (by simp) ((if_pos last).trans ?_)
      simp [active]

theorem remove_turns (settled : panel.Settled) (handle : DockHandle) :
    Row.Turns panel.row? (.remove handle) (panel.removeDock handle).2.row? ∧
      (panel.removeDock handle).2.Settled := by
  rcases absent_or_first panel.docks handle with absent | ⟨front, dock, back, docks, rfl, first⟩
  · simp only [removeDock, indexOf?_of_absent absent]
    rw [← settled.tabs_row?] at absent
    exact ⟨.notRemoved absent, settled⟩
  rcases settled.cases with ⟨none, -⟩ | ⟨before, shown, after, row, active⟩
  · simp [none] at docks
  rw [row?_of_eq row active]
  rcases cut_cases (docks.symm.trans row) with
    ⟨middle, rfl, rfl⟩ | ⟨rfl, rfl, rfl⟩ | ⟨middle, rfl, rfl⟩
  · -- one before the shown tab
    rw [removeDock_of_first docks first]
    have nearer : front.length < panel.active := by
      rw [active, List.length_append, List.length_cons]
      omega
    refine turns_of_eq (.removedBefore first) (by simp) ((if_pos (.inl nearer)).trans ?_)
    simp only [active, List.length_append, List.length_cons]
    omega
  · exact removeShown_turns row active first
  · -- one after it
    rw [removeDock_of_first docks first]
    have still : ¬ ((before ++ shown :: middle).length < panel.active ∨
        (before ++ shown :: middle ++ back).length ≤ panel.active) := by
      simp only [active, List.length_append, List.length_cons]
      omega
    exact turns_of_eq (.removedAfter first) (by simp) ((if_neg still).trans active)

theorem apply_turns (settled : panel.Settled) (edit : TabEdit K) :
    Row.Turns panel.row? edit (panel.apply edit).row? ∧ (panel.apply edit).Settled := by
  cases edit with
  | append dock => exact append_turns settled dock
  | remove handle => exact remove_turns settled handle
  | activate handle => exact activate_turns settled handle

theorem setActive_iff (panel : Container K) (handle : DockHandle) :
    (panel.setActive handle).1 = true ↔ ∃ dock ∈ panel.docks, dock.handle = handle := by
  rcases absent_or_first panel.docks handle with absent | ⟨front, dock, back, docks, rfl, first⟩
  · simp only [setActive, indexOf?_of_absent absent]
    refine iff_of_false Bool.false_ne_true ?_
    rintro ⟨dock, listed, named⟩
    exact absent dock listed named
  · rw [setActive_of_first docks first, docks]
    exact iff_of_true rfl ⟨dock, by simp, rfl⟩

end Edits

/-! ## Runs of edits -/

theorem docks_run (panel : Container K) (edits : List (TabEdit K)) :
    (panel.run edits).docks = edits.foldl TabEdit.onDocks panel.docks := by
  induction edits generalizing panel with
  | nil => rfl
  | cons edit rest ih =>
    rw [List.foldl_cons, ← docks_apply]
    exact ih (panel.apply edit)

theorem Settled.run {panel : Container K} (settled : panel.Settled) (edits : List (TabEdit K)) :
    (panel.run edits).Settled := by
  induction edits generalizing panel with
  | nil => exact settled
  | cons edit rest ih => exact ih (apply_turns settled edit).2

variable [Scalar K]

theorem Built.settled {panel : Container K} (built : panel.Built) : panel.Settled := by
  cases built with
  | single dock rect headerHeight dropEdgeFraction =>
    exact @Settled.of_eq K _ [] [] dock rfl rfl
  | @read value panel decoded =>
    cases Area.container_assembled decoded with
    | @container docks active inside =>
      have some : docks ≠ [] := List.ne_nil_of_length_pos (by omega)
      exact ⟨fun _ => inside, fun none => absurd none some⟩

/-- Whatever is done to the tabs of a container that was built from one dock or read, its
docks are what appending and erasing make of the list, one of them is shown as long as
there is one, and each edit turns the row as it should. -/
theorem shown_tab_is_stable (panel : Container K) (built : panel.Built)
    (edits : List (TabEdit K)) :
    (panel.run edits).docks = edits.foldl TabEdit.onDocks panel.docks ∧
    ((panel.run edits).docks ≠ [] → (panel.run edits).active < (panel.run edits).docks.length) ∧
    ((panel.run edits).docks = [] → (panel.run edits).active = 0) ∧
    (∀ handle, ((panel.run edits).setActive handle).1 = true ↔
      ∃ dock ∈ (panel.run edits).docks, dock.handle = handle) ∧
    ∀ edit, Row.Turns (panel.run edits).row? edit ((panel.run edits).apply edit).row? := by
  have settled := built.settled.run edits
  exact ⟨docks_run panel edits, settled.shown, settled.empty, setActive_iff _,
    fun edit => (apply_turns settled edit).1⟩

/-- A dock whose handle others may have as well, so that its name tells it apart. -/
def namesake (handle : Int) (name : Text) : Dock Float := ⟨⟨handle⟩, .str name, none⟩

def lone : Container Float :=
  .single (namesake 1 Word.docks) ⟨0.0, 0.0, 300.0, 200.0⟩ 20.0 0.25

def crowding : List (TabEdit Float) :=
  [.append (namesake 2 Word.docks), .append (namesake 1 Word.children)]

def emptying : List (TabEdit Float) := crowding ++ [.remove ⟨1⟩, .remove ⟨1⟩, .remove ⟨2⟩]

/-- While the third dock is shown the first one goes. At last all are gone. -/
theorem shown_tab_is_stable_of_namesakes :
    lone.Built ∧
    (lone.run crowding).row? =
      some ⟨[namesake 1 Word.docks, namesake 2 Word.docks], namesake 1 Word.children, []⟩ ∧
    Row.Turns (lone.run crowding).row? (.remove ⟨1⟩)
      (some ⟨[namesake 2 Word.docks], namesake 1 Word.children, []⟩) ∧
    (lone.run emptying).docks = [] ∧ (lone.run emptying).active = 0 := by
  have built : lone.Built := .single _ _ _ _
  obtain ⟨-, -, -, -, turns⟩ := shown_tab_is_stable lone built crowding
  obtain ⟨docks, -, position, -⟩ := shown_tab_is_stable lone built emptying
  exact ⟨built, rfl, turns (.remove ⟨1⟩), docks, position docks⟩

end Container

end DockLayout
