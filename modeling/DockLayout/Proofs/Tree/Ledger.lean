import Mathlib.Algebra.Order.Group.Multiset
import Mathlib.Tactic.Abel
import DockLayout.Proofs.Tree.Loaded

/-!
# Ledgers

A listener that only hears events can keep a ledger of the docks and splits in
the tree. An event that takes something out of the ledger is posted only if it
is there. When the end of a route is vacated, the splits that are announced are
exactly those that go.
-/

set_option autoImplicit false

namespace DockLayout

variable {K : Type}

namespace Area

def docks (area : Area K) : List (Dock K) := area.groups.flatMap TabGroup.docks

@[simp] theorem docks_container (panel : Container K) : (container panel).docks = panel.docks := by
  rw [docks, groups_container, List.flatMap_singleton]
  rfl

def splitsEach (areas : List (Area K)) : Multiset SplitHandle := ↑(areas.flatMap splitHandles)

def splits (area : Area K) : Multiset SplitHandle := ↑area.splitHandles

@[simp] theorem splitsEach_nil : splitsEach ([] : List (Area K)) = 0 := rfl

@[simp] theorem splitsEach_cons (area : Area K) (rest : List (Area K)) :
    splitsEach (area :: rest) = area.splits + splitsEach rest := by
  rw [splitsEach, List.flatMap_cons, ← Multiset.coe_add]
  rfl

@[simp] theorem splitsEach_append (first second : List (Area K)) :
    splitsEach (first ++ second) = splitsEach first + splitsEach second := by
  rw [splitsEach, List.flatMap_append, ← Multiset.coe_add]
  rfl

@[simp] theorem splits_container (panel : Container K) : (container panel).splits = 0 := rfl

@[simp] theorem splits_split (frame : Partition K) (children : List (Area K)) :
    (split frame children).splits = {frame.handle} + splitsEach children := by
  rw [splits, splitHandles_split, ← Multiset.cons_coe, ← Multiset.singleton_add]
  rfl

@[simp] theorem splits_resize [Scalar K] (area : Area K) (rect : Rect K) :
    (area.resize rect).splits = area.splits := by
  rw [splits, splitHandles_resize, splits]

end Area

theorem Split.splits_relayout [Scalar K] (s : Split K) :
    s.relayout.toArea.splits = {s.handle} + Area.splitsEach s.children := by
  have same : s.relayout.toArea = s.toArea.resize s.rect := by
    rw [Split.toArea, Split.toArea, Area.resize]
    rfl
  rw [same, Area.splits_resize, Split.toArea, Area.splits_split]

/-! ## Posting events -/

/-- What a listener takes the tree to hold. -/
structure Ledger (K : Type) where
  docks : Multiset (Dock K)
  splits : Multiset SplitHandle

namespace Ledger

def ofRoot : Option (Area K) → Ledger K
  | none => ⟨0, 0⟩
  | some root => ⟨↑root.docks, root.splits⟩

theorem ofRoot_eq (root : Option (Area K)) :
    ofRoot root =
      ⟨↑((root.elim [] Area.groups).flatMap TabGroup.docks), root.elim 0 Area.splits⟩ := by
  cases root with
  | none => rfl
  | some root => rfl

/-- The ledger before an event, and the one after it. Only what is there can be taken
out. -/
inductive Posts : Ledger K → Event K → Ledger K → Prop
  | dockAdded (docks : Multiset (Dock K)) (splits : Multiset SplitHandle) (dock : Dock K) :
      Posts ⟨docks, splits⟩ (.dockAdded dock) ⟨{dock} + docks, splits⟩
  | dockRemoved (docks : Multiset (Dock K)) (splits : Multiset SplitHandle) (dock : Dock K) :
      Posts ⟨{dock} + docks, splits⟩ (.dockRemoved dock) ⟨docks, splits⟩
  | splitCreated (docks : Multiset (Dock K)) (splits : Multiset SplitHandle)
      (handle : SplitHandle) :
      Posts ⟨docks, splits⟩ (.splitCreated handle) ⟨docks, {handle} + splits⟩
  | splitRemoved (docks : Multiset (Dock K)) (splits : Multiset SplitHandle)
      (handle : SplitHandle) :
      Posts ⟨docks, {handle} + splits⟩ (.splitRemoved handle) ⟨docks, splits⟩
  | ratioChanged (ledger : Ledger K) (handle : SplitHandle) (index : Nat) (ratio : K) :
      Posts ledger (.ratioChanged handle index ratio) ledger
  | layoutUpdated (ledger : Ledger K) (rect : Rect K) :
      Posts ledger (.layoutUpdated rect) ledger
  | operationStarted (ledger : Ledger K) (target : DragTarget) :
      Posts ledger (.operationStarted target) ledger
  | operationEnded (ledger : Ledger K) (target : DragTarget) :
      Posts ledger (.operationEnded target) ledger

inductive Replays : Ledger K → List (Event K) → Ledger K → Prop
  | nil (ledger : Ledger K) : Replays ledger [] ledger
  | cons {first middle last : Ledger K} {event : Event K} {rest : List (Event K)}
      (posts : Posts first event middle) (later : Replays middle rest last) :
      Replays first (event :: rest) last

namespace Replays

variable {first middle last : Ledger K}

theorem single {event : Event K} (posts : Posts first event last) :
    Replays first [event] last :=
  .cons posts (.nil last)

theorem append {events later : List (Event K)} (replays : Replays first events middle)
    (onward : Replays middle later last) : Replays first (events ++ later) last := by
  induction replays with
  | nil ledger => exact onward
  | cons posts rest ih => exact .cons posts (ih onward)

end Replays

end Ledger

/-! ## Accounts -/

namespace Event

def added? : Event K → Option (Dock K)
  | .dockAdded dock => some dock
  | _ => none

def removed? : Event K → Option (Dock K)
  | .dockRemoved dock => some dock
  | _ => none

def created? : Event K → Option SplitHandle
  | .splitCreated handle => some handle
  | _ => none

def dissolved? : Event K → Option SplitHandle
  | .splitRemoved handle => some handle
  | _ => none

end Event

/-- What was there and has come is what has gone and is there. -/
structure Ledger.Balances (first : Ledger K) (events : List (Event K)) (last : Ledger K) :
    Prop where
  docks : last.docks + ↑(events.filterMap Event.removed?) =
    first.docks + ↑(events.filterMap Event.added?)
  splits : last.splits + ↑(events.filterMap Event.dissolved?) =
    first.splits + ↑(events.filterMap Event.created?)

theorem Ledger.Posts.balances {first last : Ledger K} {event : Event K}
    (posts : Posts first event last) : Balances first [event] last := by
  cases posts with
  | dockAdded docks splits dock =>
    refine ⟨?_, rfl⟩
    change {dock} + docks + 0 = docks + {dock}
    abel
  | dockRemoved docks splits dock =>
    refine ⟨?_, rfl⟩
    change docks + {dock} = {dock} + docks + 0
    abel
  | splitCreated docks splits handle =>
    refine ⟨rfl, ?_⟩
    change {handle} + splits + 0 = splits + {handle}
    abel
  | splitRemoved docks splits handle =>
    refine ⟨rfl, ?_⟩
    change splits + {handle} = {handle} + splits + 0
    abel
  | ratioChanged | layoutUpdated | operationStarted | operationEnded => exact ⟨rfl, rfl⟩

theorem balance_append {α : Type} {first middle last come gone laterCome laterGone : Multiset α}
    (before : middle + gone = first + come) (after : last + laterGone = middle + laterCome) :
    last + (gone + laterGone) = first + (come + laterCome) := by
  calc last + (gone + laterGone)
      = last + laterGone + gone := by abel
    _ = middle + laterCome + gone := by rw [after]
    _ = middle + gone + laterCome := by abel
    _ = first + come + laterCome := by rw [before]
    _ = first + (come + laterCome) := add_assoc _ _ _

theorem Ledger.Balances.append {first middle last : Ledger K} {events later : List (Event K)}
    (before : Balances first events middle) (after : Balances middle later last) :
    Balances first (events ++ later) last where
  docks := by
    rw [List.filterMap_append, List.filterMap_append, ← Multiset.coe_add, ← Multiset.coe_add]
    exact balance_append before.docks after.docks
  splits := by
    rw [List.filterMap_append, List.filterMap_append, ← Multiset.coe_add, ← Multiset.coe_add]
    exact balance_append before.splits after.splits

theorem Ledger.Replays.balances {first last : Ledger K} {events : List (Event K)}
    (replays : Replays first events last) : Balances first events last := by
  induction replays with
  | nil ledger => exact ⟨rfl, rfl⟩
  | cons posts rest ih => exact posts.balances.append ih

/-! ## Splits along a route -/

def Step.splitsBeside (step : Step K) : Multiset SplitHandle :=
  {step.split.handle} + (Area.splitsEach (step.split.children.take step.index) +
    Area.splitsEach (step.split.children.drop (step.index + 1)))

/-- The splits of a tree that are not in the area at the end of the path. -/
def Path.splitsBeside : Path K → Multiset SplitHandle
  | [] => 0
  | step :: rest => step.splitsBeside + Path.splitsBeside rest

namespace Step

variable {step : Step K} {child : Area K}

theorem splits_eq (present : step.split.children[step.index]? = some child) :
    step.split.toArea.splits = step.splitsBeside + child.splits := by
  have parts := Path.Leads.children_eq present
  rw [Split.toArea, Area.splits_split, splitsBeside]
  conv_lhs => rw [parts]
  rw [Area.splitsEach_append, Area.splitsEach_cons]
  abel

theorem splitsEach_set (present : step.split.children[step.index]? = some child) (new : Area K) :
    {step.split.handle} + Area.splitsEach (step.split.children.set step.index new) =
      step.splitsBeside + new.splits := by
  rw [List.set_eq_take_append_cons_drop, if_pos (Path.Leads.index_lt present),
    Area.splitsEach_append, Area.splitsEach_cons, splitsBeside]
  abel

theorem splits_put (present : step.split.children[step.index]? = some child) (new : Area K) :
    (step.put new).splits = step.splitsBeside + new.splits := by
  rw [put, Area.splits_split]
  exact splitsEach_set present new

end Step

namespace Path.Leads

variable {path : Path K} {root target : Area K}

theorem splits_eq (leads : path.Leads root target) :
    root.splits = path.splitsBeside + target.splits := by
  induction leads with
  | here area => rw [splitsBeside, zero_add]
  | down present onward ih => rw [Step.splits_eq present, ih, splitsBeside, add_assoc]

theorem splits_put (leads : path.Leads root target) (new : Area K) :
    (path.put new).splits = path.splitsBeside + new.splits := by
  induction leads with
  | here area => rw [splitsBeside, zero_add, put, List.foldr_nil]
  | down present onward ih =>
    rw [put_cons, Step.splits_put present, ih, splitsBeside, add_assoc]

theorem splits_settle [Scalar K] (leads : path.Leads root target) (new : Area K) :
    (path.settle new).splits = path.splitsBeside + new.splits := by
  induction leads with
  | here area => rw [splitsBeside, zero_add, settle]
  | @down step rest child target present onward ih =>
    cases rest with
    | nil =>
      rw [settle, Split.replaceChild_state step.split (index_lt present), Split.splits_relayout,
        Step.splitsEach_set present, splitsBeside, splitsBeside, add_zero]
    | cons next rest =>
      rw [settle]
      · rw [Step.splits_put present, ih, ← add_assoc]
        rfl
      · simp

end Path.Leads

/-! ## Docks along a route -/

def Path.docksBeside (path : Path K) : Multiset (Dock K) :=
  ↑((path.before ++ path.after).flatMap TabGroup.docks)

theorem Path.docks_among (path : Path K) (groups : List (TabGroup K)) :
    (↑((path.before ++ groups ++ path.after).flatMap TabGroup.docks) : Multiset (Dock K)) =
      path.docksBeside + ↑(groups.flatMap TabGroup.docks) := by
  rw [docksBeside]
  simp only [List.flatMap_append, ← Multiset.coe_add]
  abel

namespace Path.Leads

variable {path : Path K} {root target : Area K}

theorem docks_eq (leads : path.Leads root target) :
    (↑root.docks : Multiset (Dock K)) = path.docksBeside + ↑target.docks := by
  rw [Area.docks, leads.groups_eq]
  exact path.docks_among target.groups

theorem docks_put (leads : path.Leads root target) (new : Area K) :
    (↑(path.put new).docks : Multiset (Dock K)) = path.docksBeside + ↑new.docks := by
  rw [Area.docks, leads.groups_put]
  exact path.docks_among new.groups

theorem docks_settle [Scalar K] (leads : path.Leads root target) (new : Area K) :
    (↑(path.settle new).docks : Multiset (Dock K)) = path.docksBeside + ↑new.docks := by
  rw [Area.docks, leads.groups_settle]
  exact path.docks_among new.groups

end Path.Leads

/-! ## Vacating -/

def Remains.splits : Remains K → Multiset SplitHandle
  | .nothing => 0
  | .kept area => area.splits
  | .lone split => split.toArea.splits

section Vacating

variable [Scalar K]

theorem Step.replays_absorb {step : Step K} {child survivor : Area K} {lone : Split K}
    (present : step.split.children[step.index]? = some child)
    (only : lone.children = [survivor]) (survives : survivor.Filled)
    (docks : Multiset (Dock K)) (others : Multiset SplitHandle) :
    Ledger.Replays ⟨docks, others + (step.splitsBeside + lone.toArea.splits)⟩
      (step.split.absorb step.index lone).2
      ⟨docks, others + (step.split.absorb step.index lone).1.toArea.splits⟩ := by
  have inside := Path.Leads.index_lt present
  have parts : lone.toArea.splits = {lone.handle} + survivor.splits := by
    rw [Split.toArea, Area.splits_split, only, Area.splitsEach_cons, Area.splitsEach_nil, add_zero]
  rcases step.split.absorb_eq step.index only with
    ⟨frame, children, rfl, -, spliced⟩ | replaced
  · have some : children ≠ [] := by
      cases survives with
      | split some each => exact some
    rw [spliced, Split.expandChild_state step.split inside some, Split.splits_relayout, parts,
      Area.splits_split]
    generalize left : others + ({step.split.handle} + Area.splitsEach _) = remaining
    have before : others + (step.splitsBeside + ({lone.handle} +
        ({frame.handle} + Area.splitsEach children))) =
          {frame.handle} + ({lone.handle} + remaining) := by
      rw [← left, splitsBeside, Area.splitsEach_append, Area.splitsEach_append]
      abel
    rw [before]
    exact .cons (.splitRemoved docks _ frame.handle)
      (.single (.splitRemoved docks remaining lone.handle))
  · rw [replaced, Split.replaceChild_state step.split inside, Split.splits_relayout,
      splitsEach_set present, parts]
    have before : others + (step.splitsBeside + ({lone.handle} + survivor.splits)) =
        {lone.handle} + (others + (step.splitsBeside + survivor.splits)) := by
      abel
    rw [before]
    exact .single (.splitRemoved docks _ lone.handle)

theorem Step.replays_tidy {step : Step K} {child : Area K}
    (present : step.split.children[step.index]? = some child)
    {below : Remains K × List (Event K)} (left : below.1.Filled)
    (docks : Multiset (Dock K)) (others : Multiset SplitHandle) {start : Ledger K}
    (replays : Ledger.Replays start below.2
      ⟨docks, others + step.splitsBeside + below.1.splits⟩) :
    Ledger.Replays start (step.tidy below).2 ⟨docks, others + (step.tidy below).1.splits⟩ := by
  have inside := Path.Leads.index_lt present
  obtain ⟨remains, events⟩ := below
  cases left with
  | nothing =>
    rw [Remains.splits, add_zero] at replays
    simp only [tidy]
    split
    · rename_i single
      -- the step's split has no other child
      have alone : step.splitsBeside = {step.split.handle} := by
        have first : step.index = 0 := by omega
        have none : step.split.children.drop (step.index + 1) = [] :=
          List.drop_eq_nil_of_le (by omega)
        rw [splitsBeside, none, first, List.take_zero, Area.splitsEach_nil, add_zero, add_zero]
      rw [alone, add_comm] at replays
      rw [Remains.splits, add_zero]
      exact replays.append (.single (.splitRemoved docks others step.split.handle))
    · rename_i several
      have rest : (step.split.removeChild step.index).state.toArea.splits =
          step.splitsBeside := by
        rw [Split.removeChild_state step.split inside several, Split.splits_relayout,
          List.eraseIdx_eq_take_drop_succ, Area.splitsEach_append, splitsBeside]
      split
      · rw [Remains.splits, rest]
        exact replays
      · rw [Remains.splits, rest]
        exact replays
  | kept filled =>
    rw [Remains.splits, add_assoc] at replays
    simp only [tidy, Remains.splits, splits_put present]
    exact replays
  | lone only survives =>
    rw [Remains.splits, add_assoc] at replays
    simp only [tidy, Remains.splits]
    exact replays.append (replays_absorb present only survives docks others)

/-- The splits that go when the end of a route is vacated are announced one by one. -/
theorem Path.Leads.replays_vacate {path : Path K} {root target : Area K}
    (leads : path.Leads root target) (filled : root.Filled) (docks : Multiset (Dock K))
    (others : Multiset SplitHandle) :
    Ledger.Replays ⟨docks, others + path.splitsBeside⟩ path.vacate.2
      ⟨docks, others + path.vacate.1.splits⟩ := by
  induction leads generalizing others with
  | here area => exact .nil _
  | @down step rest child target present onward ih =>
    have below := Area.filled_child filled (member present)
    rw [splitsBeside, ← add_assoc]
    exact Step.replays_tidy present (onward.groups_vacate below).1 docks others
      (ih below (others + step.splitsBeside))

theorem Remains.replays_root {below : Remains K × List (Event K)} (left : below.1.Filled)
    (docks : Multiset (Dock K)) {start : Ledger K}
    (replays : Ledger.Replays start below.2 ⟨docks, below.1.splits⟩) :
    Ledger.Replays start (Remains.root below).2
      ⟨docks, (Remains.root below).1.elim 0 Area.splits⟩ := by
  obtain ⟨remains, events⟩ := below
  cases left with
  | nothing => exact replays
  | kept filled => exact replays
  | @lone split survivor only filled =>
    have parts : split.toArea.splits = {split.handle} + survivor.splits := by
      rw [Split.toArea, Area.splits_split, only, Area.splitsEach_cons, Area.splitsEach_nil,
        add_zero]
    rw [Remains.splits, parts] at replays
    simp only [Remains.root, only, List.head?_cons, Option.map_some, Option.elim_some,
      Area.splits_resize]
    exact replays.append (.single (.splitRemoved docks survivor.splits split.handle))

end Vacating

end DockLayout
