import DockLayout.Proofs.Workspace.Ledger

/-!
# Handles

A workspace numbers its splits and docks, and no number is given out twice. As long as a
caller places only docks that it has been given, each of them where it is not yet, no two
docks and no two splits of the tree have one handle.
-/

set_option autoImplicit false

namespace DockLayout

variable {K : Type}

/-! ## Counting -/

/-- The numbers follow one another, from the first up to the next. -/
inductive Consecutive : Int → List Int → Int → Prop
  | nil (next : Int) : Consecutive next [] next
  | cons {first next : Int} {rest : List Int} (later : Consecutive (first + 1) rest next) :
      Consecutive first (first :: rest) next

namespace Consecutive

variable {first middle next : Int} {values later : List Int}

theorem single (first : Int) : Consecutive first [first] (first + 1) := .cons (.nil _)

theorem append (counts : Consecutive first values middle)
    (onward : Consecutive middle later next) : Consecutive first (values ++ later) next := by
  induction counts with
  | nil middle => exact onward
  | cons rest ih => exact .cons (ih onward)

theorem bounds (counts : Consecutive first values next) :
    first ≤ next ∧ ∀ value ∈ values, first ≤ value ∧ value < next := by
  induction counts with
  | nil next => exact ⟨Int.le_refl next, fun value listed => absurd listed List.not_mem_nil⟩
  | @cons first next rest later ih =>
    obtain ⟨order, between⟩ := ih
    refine ⟨by omega, ?_⟩
    intro value listed
    rcases List.mem_cons.mp listed with rfl | other
    · omega
    · have := between value other
      omega

theorem nodup (counts : Consecutive first values next) : values.Nodup := by
  induction counts with
  | nil next => exact List.nodup_nil
  | @cons first next rest later ih =>
    refine List.nodup_cons.mpr ⟨?_, ih⟩
    intro again
    have := (later.bounds.2 first again).1
    omega

theorem disjoint {α : Type} {value : α → Int} {present issued : List α}
    (counts : Consecutive first (issued.map value) next)
    (below : ∀ handle ∈ present, value handle < first) : present.Disjoint issued := by
  intro handle old new
  have later := (counts.bounds.2 (value handle) (List.mem_map_of_mem new)).1
  have earlier := below handle old
  omega

end Consecutive

/-! ## What an operation brings -/

def Outcome.arrivals {σ α : Type} (outcome : Outcome K σ α) : List DockHandle :=
  (outcome.events.filterMap Event.added?).map Dock.handle

/-- The splits that come get the numbers whose turn it is, no number of a dock is used up,
and no docks come but those that are given and those that the operation took out. -/
structure Outcome.Brings {σ α : Type} (view : σ → Workspace K) (before : Workspace K)
    (given : Multiset (Dock K)) (outcome : Outcome K σ α) : Prop where
  splits : Consecutive before.nextSplit
    ((outcome.events.filterMap Event.created?).map SplitHandle.value) (view outcome.state).nextSplit
  counter : (view outcome.state).nextDock = before.nextDock
  docks : (↑(outcome.events.filterMap Event.added?) : Multiset (Dock K)) ≤
    given + ↑(outcome.events.filterMap Event.removed?)

namespace Outcome

variable {σ α β : Type} {view : σ → Workspace K} {before : Workspace K}

theorem brings_quiet (view : σ → Workspace K) (state : σ) (answer : α)
    (given : Multiset (Dock K)) : (Outcome.quiet state answer).Brings view (view state) given :=
  ⟨.nil _, rfl, Multiset.zero_le _⟩

theorem brings_refuse (view : σ → Workspace K) (state : σ) (error : LayoutError K)
    (given : Multiset (Dock K)) :
    (Outcome.refuse state error : Outcome K σ α).Brings view (view state) given :=
  ⟨.nil _, rfl, Multiset.zero_le _⟩

theorem Brings.andThen {first : Outcome K σ α} {next : σ → α → Outcome K σ β}
    (brings : first.Brings view before 0)
    (onward : ∀ answer, (next first.state answer).Brings view (view first.state) 0) :
    (first.andThen next).Brings view before 0 := by
  obtain ⟨⟨result, events⟩, state⟩ := first
  cases result with
  | error error => exact ⟨brings.splits, brings.counter, brings.docks⟩
  | ok answer =>
    have later := onward answer
    refine ⟨?_, later.counter.trans brings.counter, ?_⟩
    · simp only [Outcome.andThen, List.filterMap_append, List.map_append]
      exact brings.splits.append later.splits
    · have both := add_le_add brings.docks later.docks
      simp only [zero_add] at both
      simp only [Outcome.andThen, List.filterMap_append, ← Multiset.coe_add, zero_add]
      exact both

theorem Brings.answering {outcome : Outcome K σ α} {given : Multiset (Dock K)}
    (brings : outcome.Brings view before given) (f : α → β) :
    (outcome.answering f).Brings view before given :=
  ⟨brings.splits, brings.counter, brings.docks⟩

end Outcome

namespace Workspace

theorem placeFirst_brings (ws : Workspace K) (dock : Dock K) :
    (ws.placeFirst dock).Brings id ws {dock} := by
  unfold placeFirst
  cases ws.root with
  | some root => exact Outcome.brings_refuse id ws _ _
  | none => exact ⟨.nil _, rfl, le_refl _⟩

variable [Scalar K]

theorem updateRect_brings (ws : Workspace K) (rect : Rect K) :
    (ws.updateRect rect).Brings id ws 0 := ⟨.nil _, rfl, Multiset.zero_le _⟩

theorem changeRatio_brings (ws : Workspace K) (handle : SplitHandle) (index : Int)
    (delta : Point K) : (ws.changeRatio handle index delta).Brings id ws 0 := by
  rcases ws.changeRatio_cases handle index delta with
    ⟨-, missed⟩ | ⟨split, -, -, refused⟩ |
    ⟨split, moved, root, path, -, -, -, -, -, changed⟩
  · rw [missed]
    exact Outcome.brings_quiet id ws _ _
  · rw [refused]
    exact Outcome.brings_refuse id ws _ _
  · rw [changed]
    exact ⟨.nil _, rfl, Multiset.zero_le _⟩

theorem splitBy_brings (ws : Workspace K) (direction : Direction) (target : DockHandle)
    (dock : Dock K) (before : Bool) (ratio : Option K) :
    (ws.splitBy direction target dock before ratio).Brings id ws {dock} := by
  unfold splitBy
  cases ws.locate? target with
  | none => exact Outcome.brings_quiet id ws _ _
  | some entry => exact ⟨.single ws.nextSplit, rfl, le_refl _⟩

omit [Scalar K] in
theorem addTab_brings (ws : Workspace K) (target : DockHandle) (dock : Dock K) :
    (ws.addTab target dock).Brings id ws {dock} := by
  unfold addTab
  cases ws.locate? target with
  | none => exact Outcome.brings_quiet id ws _ _
  | some entry => exact ⟨.nil _, rfl, le_refl _⟩

theorem dropDock_brings (ws : Workspace K) (dock : Dock K) (target : DropTarget) :
    (ws.dropDock dock target).Brings id ws {dock} := by
  unfold dropDock
  cases target.zone.direction? with
  | none => exact ws.addTab_brings target.handle dock
  | some direction => exact ws.splitBy_brings direction target.handle dock _ none

omit [Scalar K] in
theorem setActiveDock_brings (ws : Workspace K) (handle : DockHandle) :
    (ws.setActiveDock handle).Brings id ws 0 := by
  unfold setActiveDock
  cases ws.locate? handle with
  | none => exact Outcome.brings_quiet id ws _ _
  | some entry => exact ⟨.nil _, rfl, Multiset.zero_le _⟩

theorem removeDock_cases (ws : Workspace K) (handle : DockHandle) :
    ws.removeDock handle = .quiet ws none ∨
      ∃ dock root events, ws.removeDock handle = .publish { ws with root } (some dock) events ∧
        events.filterMap Event.created? = [] ∧ events.filterMap Event.added? = [] ∧
        events.filterMap Event.removed? = [dock] := by
  rcases ws.removeDock_eq handle with missing | ⟨dock, root, dissolved, removed, gone⟩
  · exact .inl missing
  · refine .inr ⟨dock, root, _, removed, ?_⟩
    rw [List.filterMap_append, List.filterMap_append, List.filterMap_append,
      Event.filterMap_of_gone Event.created? (fun _ => rfl) gone,
      Event.filterMap_of_gone Event.added? (fun _ => rfl) gone,
      Event.filterMap_of_gone Event.removed? (fun _ => rfl) gone]
    exact ⟨rfl, rfl, rfl⟩

theorem removeDock_brings (ws : Workspace K) (handle : DockHandle) :
    (ws.removeDock handle).Brings id ws 0 := by
  rcases ws.removeDock_cases handle with missing | ⟨dock, root, events, removed, made, come, gone⟩
  · rw [missing]
    exact Outcome.brings_quiet id ws _ _
  · rw [removed]
    refine ⟨?_, rfl, ?_⟩
    · simp only [Outcome.publish, made]
      exact .nil ws.nextSplit
    · simp only [Outcome.publish, come]
      exact Multiset.zero_le _

theorem moveDock_brings (ws : Workspace K) (handle : DockHandle) (target : DropTarget) :
    (ws.moveDock handle target).Brings id ws 0 := by
  rcases ws.moveDock_cases handle target with ⟨-, nothing⟩ | ⟨-, -, moves⟩
  · rw [nothing]
    exact Outcome.brings_quiet id ws _ _
  · rw [moves]
    rcases ws.removeDock_cases handle with
      missing | ⟨dock, root, events, removed, made, come, gone⟩
    · rw [missing]
      exact Outcome.brings_quiet id ws _ _
    · have dropped := dropDock_brings { ws with root } dock target
      rw [removed]
      refine ⟨?_, dropped.counter, ?_⟩
      · simp only [Outcome.andThen, Outcome.publish, List.filterMap_append, made, List.nil_append]
        exact dropped.splits
      · simp only [Outcome.andThen, Outcome.publish, List.filterMap_append, come, gone,
          List.nil_append, zero_add]
        exact dropped.docks

end Workspace

/-! ## Sessions -/

namespace Session

variable [Scalar K]

omit [Scalar K] in
theorem edit_brings {α : Type} (s : Session K) {outcome : Outcome K (Workspace K) α}
    {given : Multiset (Dock K)} (brings : outcome.Brings id s.workspace given) :
    (s.edit outcome).Brings Session.workspace s.workspace given :=
  ⟨brings.splits, brings.counter, brings.docks⟩

theorem press_brings (s : Session K) (p : Point K) :
    (s.press p).Brings Session.workspace s.workspace 0 := by
  rcases s.press_cases p with ⟨-, ignored⟩ | ⟨target, -, -, started⟩
  · rw [ignored]
    exact Outcome.brings_quiet Session.workspace s _ _
  · rw [started]
    exact ⟨.nil _, rfl, Multiset.zero_le _⟩

theorem motion_brings (s : Session K) (p : Point K) :
    (s.motion p).Brings Session.workspace s.workspace 0 := by
  rcases s.motion_cases p with ⟨-, idle⟩ | ⟨gesture, -, ⟨-, still⟩ |
    ⟨handle, index, -, ⟨split, -, -, refused⟩ | ⟨ws, answer, events, changed, moved⟩⟩⟩
  · rw [idle]
    exact Outcome.brings_quiet Session.workspace s _ _
  · rw [still]
    exact ⟨.nil _, rfl, Multiset.zero_le _⟩
  · rw [refused]
    exact Outcome.brings_refuse Session.workspace s _ _
  · have brings := s.workspace.changeRatio_brings handle index
      ⟨gesture.last.x - p.x, gesture.last.y - p.y⟩
    rw [changed] at brings
    rw [moved]
    exact ⟨brings.splits, brings.counter, brings.docks⟩

theorem drop_brings (s : Session K) (gesture : Gesture K) (p : Point K) :
    (s.drop gesture p).Brings Session.workspace s.workspace 0 := by
  rcases s.drop_cases gesture p with
    ⟨-, missed⟩ | ⟨error, -, refused⟩ | ⟨handle, place, -, -, moved⟩
  · rw [missed]
    exact Outcome.brings_quiet Session.workspace s _ _
  · rw [refused]
    exact Outcome.brings_refuse Session.workspace s _ _
  · rw [moved]
    exact s.edit_brings (s.workspace.moveDock_brings handle place)

theorem release_brings (s : Session K) (p : Point K) :
    (s.release p).Brings Session.workspace s.workspace 0 := by
  cases held : s.gesture with
  | none =>
    rw [release_of_idle held]
    exact Outcome.brings_quiet Session.workspace s _ _
  | some gesture =>
    rw [release_of_held held]
    refine (s.motion_brings p).andThen fun moved => ?_
    refine Outcome.Brings.andThen (drop_brings { (s.motion p).state with gesture := none }
      gesture p) fun changed => ?_
    exact ⟨.nil _, rfl, Multiset.zero_le _⟩

omit [Scalar K] in
theorem cancel_brings (s : Session K) : s.cancel.Brings Session.workspace s.workspace 0 := by
  unfold cancel
  cases s.gesture with
  | none => exact Outcome.brings_quiet Session.workspace s _ _
  | some gesture => exact ⟨.nil _, rfl, Multiset.zero_le _⟩

end Session

/-! ## Actions -/

def Action.placed? : Action K → Option (Dock K)
  | .placeFirst dock => some dock
  | .splitBy _ _ dock _ _ => some dock
  | .addTab _ dock => some dock
  | .dropDock dock _ => some dock
  | _ => none

def Action.made? : Action K → Answer K → Option (Dock K)
  | .createDock _ _, .dock dock => dock
  | _, _ => none

/-- An action uses up a number at the request of the caller, or it is an edit. -/
theorem Action.numbers_or_edits (action : Action K) :
    (∃ pluginName pluginData, action = .createDock pluginName pluginData) ∨
      action = .newSplitHandle ∨
      (∀ pluginName pluginData, action ≠ .createDock pluginName pluginData) ∧
        action ≠ .newSplitHandle := by
  cases action <;> simp

theorem Action.made?_eq_none {action : Action K}
    (makes : ∀ pluginName pluginData, action ≠ .createDock pluginName pluginData)
    (answer : Answer K) : action.made? answer = none := by
  unfold made?
  split
  · exact absurd rfl (makes _ _)
  · rfl

def Answer.splitHandle? : Answer K → Option SplitHandle
  | .splitHandle handle => some handle
  | _ => none

theorem Outcome.Brings.answered {σ α : Type} {view : σ → Workspace K} {before : Workspace K}
    {given : Multiset (Dock K)} {outcome : Outcome K σ α} {f : α → Answer K}
    (brings : outcome.Brings view before given)
    (unread : ∀ answer, (f answer).splitHandle? = none) :
    (outcome.answering f).Brings view before given ∧
      (outcome.answering f).result.toOption.bind Answer.splitHandle? = none := by
  refine ⟨brings.answering f, ?_⟩
  obtain ⟨⟨result, events⟩, state⟩ := outcome
  cases result with
  | error error => rfl
  | ok answer => exact unread answer

namespace Session

variable [Scalar K]

def docksIssuedBy (s : Session K) (action : Action K) : List (Dock K) :=
  ((s.perform action).result.toOption.bind action.made?).toList

/-- The split handles that the action gives out, to the caller or to a new split. -/
def splitsIssuedBy (s : Session K) (action : Action K) : List SplitHandle :=
  ((s.perform action).result.toOption.bind Answer.splitHandle?).toList ++
    (s.perform action).events.filterMap Event.created?

def docksIssued (s : Session K) : List (Action K) → List (Dock K)
  | [] => []
  | action :: rest => s.docksIssuedBy action ++ docksIssued (s.perform action).state rest

def splitsIssued (s : Session K) : List (Action K) → List SplitHandle
  | [] => []
  | action :: rest => s.splitsIssuedBy action ++ splitsIssued (s.perform action).state rest

theorem perform_brings (s : Session K) {action : Action K}
    (makes : ∀ pluginName pluginData, action ≠ .createDock pluginName pluginData)
    (counts : action ≠ .newSplitHandle) :
    (s.perform action).Brings Session.workspace s.workspace ↑action.placed?.toList ∧
      (s.perform action).result.toOption.bind Answer.splitHandle? = none := by
  cases action with
  | createDock pluginName pluginData => exact absurd rfl (makes pluginName pluginData)
  | newSplitHandle => exact absurd rfl counts
  | placeFirst dock =>
    exact (s.edit_brings (s.workspace.placeFirst_brings dock)).answered fun _ => rfl
  | updateRect rect =>
    exact (s.edit_brings (s.workspace.updateRect_brings rect)).answered fun _ => rfl
  | changeRatio handle index delta =>
    exact (s.edit_brings (s.workspace.changeRatio_brings handle index delta)).answered fun _ => rfl
  | splitBy direction target dock before ratio =>
    have brings := s.workspace.splitBy_brings direction target dock before ratio
    exact (s.edit_brings brings).answered fun _ => rfl
  | addTab target dock =>
    exact (s.edit_brings (s.workspace.addTab_brings target dock)).answered fun _ => rfl
  | dropDock dock target =>
    exact (s.edit_brings (s.workspace.dropDock_brings dock target)).answered fun _ => rfl
  | removeDock handle =>
    exact (s.edit_brings (s.workspace.removeDock_brings handle)).answered fun _ => rfl
  | moveDock handle target =>
    exact (s.edit_brings (s.workspace.moveDock_brings handle target)).answered fun _ => rfl
  | setActiveDock handle =>
    exact (s.edit_brings (s.workspace.setActiveDock_brings handle)).answered fun _ => rfl
  | press p => exact (s.press_brings p).answered fun _ => rfl
  | motion p => exact (s.motion_brings p).answered fun _ => rfl
  | release p => exact (s.release_brings p).answered fun _ => rfl
  | cancel => exact s.cancel_brings.answered fun _ => rfl

/-- What an action gives out is what its turn brings, splits and docks counted apart. -/
theorem perform_counts (s : Session K) (action : Action K) :
    Consecutive s.workspace.nextSplit ((s.splitsIssuedBy action).map SplitHandle.value)
        (s.perform action).state.workspace.nextSplit ∧
      Consecutive s.workspace.nextDock
        (((s.docksIssuedBy action).map Dock.handle).map DockHandle.value)
        (s.perform action).state.workspace.nextDock := by
  rcases action.numbers_or_edits with ⟨pluginName, pluginData, rfl⟩ | rfl | ⟨makes, counts⟩
  · exact ⟨.nil s.workspace.nextSplit, .single s.workspace.nextDock⟩
  · exact ⟨.single s.workspace.nextSplit, .nil s.workspace.nextDock⟩
  · obtain ⟨brings, unread⟩ := s.perform_brings makes counts
    have none : s.docksIssuedBy action = [] := by
      simp [docksIssuedBy, funext (Action.made?_eq_none makes)]
    rw [splitsIssuedBy, unread, none, brings.counter]
    exact ⟨brings.splits, .nil s.workspace.nextDock⟩

theorem run_counts (s : Session K) (actions : List (Action K)) :
    Consecutive s.workspace.nextSplit ((s.splitsIssued actions).map SplitHandle.value)
        (s.run actions).workspace.nextSplit ∧
      Consecutive s.workspace.nextDock
        (((s.docksIssued actions).map Dock.handle).map DockHandle.value)
        (s.run actions).workspace.nextDock := by
  induction actions generalizing s with
  | nil => exact ⟨.nil s.workspace.nextSplit, .nil s.workspace.nextDock⟩
  | cons action rest ih =>
    obtain ⟨splits, docks⟩ := s.perform_counts action
    obtain ⟨laterSplits, laterDocks⟩ := ih (s.perform action).state
    simp only [splitsIssued, docksIssued, List.map_append]
    exact ⟨splits.append laterSplits, docks.append laterDocks⟩

theorem perform_added (s : Session K) (action : Action K) :
    (↑((s.perform action).events.filterMap Event.added?) : Multiset (Dock K)) ≤
      ↑action.placed?.toList + ↑((s.perform action).events.filterMap Event.removed?) := by
  rcases action.numbers_or_edits with ⟨pluginName, pluginData, rfl⟩ | rfl | ⟨makes, counts⟩
  · exact Multiset.zero_le _
  · exact Multiset.zero_le _
  · exact (s.perform_brings makes counts).1.docks

end Session

/-! ## Known docks -/

namespace Workspace

def splitHandles (ws : Workspace K) : List SplitHandle := Area.splitHandlesIn ws.areas

theorem dockHandles_eq_map (ws : Workspace K) : ws.dockHandles = ws.docks.map Dock.handle := by
  rw [dockHandles_eq, docks, List.map_flatMap]

theorem ledger_dockHandles (ws : Workspace K) :
    ws.ledger.docks.map Dock.handle = ↑ws.dockHandles := by
  rw [ledger, Ledger.ofRoot_eq, ← groups_eq, ← docks, dockHandles_eq_map, Multiset.map_coe]

theorem ledger_splits (ws : Workspace K) : ws.ledger.splits = ↑ws.splitHandles := by
  rw [splitHandles, areas, ledger]
  cases ws.root with
  | none => rfl
  | some root =>
    simp only [Area.visit_eq]
    rfl

theorem Sound.splits_lt [Scalar K] {regime : Regime K} {ws : Workspace K}
    (sound : ws.Sound regime) :
    ∀ handle ∈ ws.ledger.splits, handle.value < ws.nextSplit := by
  intro handle listed
  rw [ledger] at listed
  cases same : ws.root with
  | none =>
    rw [same] at listed
    exact absurd listed (Multiset.notMem_zero handle)
  | some root =>
    rw [same] at listed
    exact (sound.tree root same).1.splitHandles_lt handle listed

/-- The handles of the docks in the tree are among the known ones, each of them once. These
have been given out, and no two splits have one handle. -/
structure Registers (known : List DockHandle) (ws : Workspace K) : Prop where
  docks : ws.ledger.docks.map Dock.handle ≤ ↑known
  apart : known.Nodup
  below : ∀ handle ∈ known, handle.value < ws.nextDock
  splits : ws.ledger.splits.Nodup

theorem Registers.dockHandles {known : List DockHandle} {ws : Workspace K}
    (registers : ws.Registers known) :
    ws.dockHandles.Nodup ∧ ∀ handle ∈ ws.dockHandles, handle.value < ws.nextDock := by
  have listed := registers.docks
  rw [ledger_dockHandles] at listed
  refine ⟨Multiset.coe_nodup.mp (Multiset.nodup_of_le listed registers.apart), ?_⟩
  intro handle present
  exact registers.below handle (Multiset.mem_of_le listed (Multiset.mem_coe.mpr present))

theorem Registers.splitHandles {known : List DockHandle} {ws : Workspace K}
    (registers : ws.Registers known) : ws.splitHandles.Nodup := by
  rw [← Multiset.coe_nodup, ← ledger_splits]
  exact registers.splits

end Workspace

namespace Session

variable [Scalar K] {s : Session K} {known : List DockHandle}

/-- The splits that come have handles that no split of the tree has. -/
theorem perform_splits_nodup (sound : s.Sound Regime.any)
    (apart : s.workspace.ledger.splits.Nodup) (action : Action K) :
    (s.perform action).state.workspace.ledger.splits.Nodup := by
  obtain ⟨counts, -⟩ := s.perform_counts action
  have balances := (perform_posted sound action).balances.splits
  have come : ((s.perform action).events.filterMap Event.created?).Sublist
      (s.splitsIssuedBy action) := List.sublist_append_right _ _
  have fresh : Disjoint s.workspace.ledger.splits
      ↑((s.perform action).events.filterMap Event.created?) := by
    rw [Multiset.disjoint_left]
    intro handle present new
    have next := (counts.bounds.2 handle.value (List.mem_map_of_mem (come.mem new))).1
    have given := sound.workspace.splits_lt handle present
    omega
  have both : (s.workspace.ledger.splits +
      ↑((s.perform action).events.filterMap Event.created?)).Nodup :=
    Multiset.nodup_add.mpr ⟨apart, (counts.nodup.of_map _).sublist come, fresh⟩
  rw [ledger, ledger] at balances
  refine Multiset.nodup_of_le ?_ (balances ▸ both)
  exact Multiset.le_add_right _ _

/-- The docks of the tree are known ones that were there or that have been placed. -/
theorem perform_docks_le (sound : s.Sound Regime.any) (registers : s.workspace.Registers known)
    {action : Action K}
    (places : ∀ dock ∈ action.placed?, dock.handle ∈ (s.perform action).arrivals →
      dock.handle ∈ known ∧ dock.handle ∉ s.workspace.dockHandles) :
    (s.perform action).state.workspace.ledger.docks.map Dock.handle ≤ ↑known := by
  have balances := (perform_posted sound action).balances.docks
  have added := s.perform_added action
  generalize gone : (↑((s.perform action).events.filterMap Event.removed?) :
    Multiset (Dock K)) = removed at balances added
  rw [ledger, ledger] at balances
  generalize (s.perform action).state.workspace.ledger.docks = after at balances ⊢
  have grows (given : Multiset (Dock K))
      (come : (↑((s.perform action).events.filterMap Event.added?) : Multiset (Dock K)) ≤
        given + removed) : after ≤ given + s.workspace.ledger.docks := by
    have whole : after + removed ≤ given + s.workspace.ledger.docks + removed := by
      rw [balances, add_comm given, add_assoc]
      exact add_le_add_right come _
    exact le_of_add_le_add_right whole
  have stays (come : (↑((s.perform action).events.filterMap Event.added?) :
      Multiset (Dock K)) ≤ 0 + removed) : after.map Dock.handle ≤ ↑known := by
    have still := grows 0 come
    rw [zero_add] at still
    exact (Multiset.map_le_map still).trans registers.docks
  cases placed : action.placed? with
  | none =>
    rw [placed] at added
    exact stays added
  | some dock =>
    rw [placed] at added
    by_cases come : dock.handle ∈ (s.perform action).arrivals
    · obtain ⟨listed, absent⟩ := places dock placed come
      rw [← Multiset.mem_coe, ← Workspace.ledger_dockHandles] at absent
      have one := Multiset.map_le_map (f := Dock.handle) (grows {dock} added)
      rw [Multiset.singleton_add, Multiset.map_cons] at one
      exact one.trans ((Multiset.cons_le_of_notMem absent).mpr ⟨listed, registers.docks⟩)
    · -- the dock was not placed after all, so only docks that were taken out can come
      have absent : dock ∉ (↑((s.perform action).events.filterMap Event.added?) :
          Multiset (Dock K)) :=
        fun announced => come (List.mem_map_of_mem (Multiset.mem_coe.mp announced))
      have others := (Multiset.le_cons_of_notMem absent).mp added
      exact stays (by rwa [zero_add])

theorem perform_registers (sound : s.Sound Regime.any) (registers : s.workspace.Registers known)
    {action : Action K}
    (places : ∀ dock ∈ action.placed?, dock.handle ∈ (s.perform action).arrivals →
      dock.handle ∈ known ∧ dock.handle ∉ s.workspace.dockHandles) :
    (s.perform action).state.workspace.Registers
      (known ++ (s.docksIssuedBy action).map Dock.handle) := by
  obtain ⟨-, counts⟩ := s.perform_counts action
  obtain ⟨further, turns⟩ := counts.bounds
  have turn : ∀ handle ∈ (s.docksIssuedBy action).map Dock.handle,
      s.workspace.nextDock ≤ handle.value ∧
        handle.value < (s.perform action).state.workspace.nextDock :=
    fun handle issued => turns _ (List.mem_map_of_mem issued)
  refine ⟨?_, ?_, ?_, perform_splits_nodup sound registers.splits action⟩
  · refine (perform_docks_le sound registers places).trans ?_
    rw [← Multiset.coe_add]
    exact Multiset.le_add_right _ _
  · rw [List.nodup_append]
    refine ⟨registers.apart, counts.nodup.of_map _, ?_⟩
    intro old before new after same
    have below := registers.below old before
    have := (turn new after).1
    rw [same] at below
    omega
  · intro handle listed
    rcases List.mem_append.mp listed with old | new
    · exact Int.lt_of_lt_of_le (registers.below handle old) further
    · exact (turn handle new).2

/-- Every dock that is placed in the course of a run has a known handle, or one that has been
handed out earlier in the run, and no dock in the tree has that handle at the time. -/
def PlacesKnown (s : Session K) (known : List DockHandle) : List (Action K) → Prop
  | [] => True
  | action :: rest =>
      (∀ dock ∈ action.placed?, dock.handle ∈ (s.perform action).arrivals →
        dock.handle ∈ known ∧ dock.handle ∉ s.workspace.dockHandles) ∧
      PlacesKnown (s.perform action).state
        (known ++ (s.docksIssuedBy action).map Dock.handle) rest

instance decidablePlacesKnown (s : Session K) (known : List DockHandle) :
    (actions : List (Action K)) → Decidable (s.PlacesKnown known actions)
  | [] => isTrue trivial
  | action :: rest =>
      have := decidablePlacesKnown (s.perform action).state
        (known ++ (s.docksIssuedBy action).map Dock.handle) rest
      inferInstanceAs (Decidable (_ ∧ _))

theorem run_registers (sound : s.Sound Regime.any) (registers : s.workspace.Registers known)
    {actions : List (Action K)} (places : s.PlacesKnown known actions) :
    (s.run actions).workspace.Registers
      (known ++ (s.docksIssued actions).map Dock.handle) := by
  induction actions generalizing s known with
  | nil =>
    rw [docksIssued, List.map_nil, List.append_nil]
    exact registers
  | cons action rest ih =>
    have stepped := sound.perform (Regime.any_unconditional.admitted action)
    have later := ih stepped (perform_registers sound registers places.1) places.2
    rw [docksIssued, List.map_append, ← List.append_assoc]
    exact later

end Session

namespace Workspace

variable [Scalar K] {ws : Workspace K}

theorem around_docks_lt (config : Config K) (root : Option (Area K)) :
    ∀ handle ∈ (around config root).dockHandles, handle.value < (around config root).nextDock :=
  fun _ listed => lt_nextAfter (List.mem_map_of_mem listed)

theorem Initial.docks_lt (initial : ws.Initial) :
    ∀ handle ∈ ws.dockHandles, handle.value < ws.nextDock := by
  cases initial with
  | empty rect config => exact fun handle listed => absurd listed List.not_mem_nil
  | @loaded value rect config _ read =>
    rw [decode] at read
    cases loaded : (rootData value).bind decodeRoot with
    | error error => simp [loaded] at read
    | ok root =>
      have below := around_docks_lt config root
      cases rect with
      | none =>
        simp only [loaded, Except.ok.injEq] at read
        exact read ▸ below
      | some rect =>
        simp only [loaded, Except.ok.injEq] at read
        have filled : (around config root).Filled :=
          (around_sound Regime.any_admitsReading (Regime.any_unconditional.share _)
            (root_assembled loaded)).filled
        have same : ws.dockHandles = (around config root).dockHandles := by
          rw [← read, dockHandles_eq, dockHandles_eq, (updateRect_groups filled rect).1]
        rw [same, ← read]
        exact below

theorem Sound.splitHandles_lt {regime : Regime K} (sound : ws.Sound regime) :
    ∀ handle ∈ ws.splitHandles, handle.value < ws.nextSplit := by
  intro handle listed
  refine sound.splits_lt handle ?_
  rw [ledger_splits]
  exact Multiset.mem_coe.mpr listed

theorem Initial.registers (initial : ws.Initial) (splits : ws.splitHandles.Nodup)
    (docks : ws.dockHandles.Nodup) : ws.Registers ws.dockHandles where
  docks := (ws.ledger_dockHandles).le
  apart := docks
  below := initial.docks_lt
  splits := by
    rw [ledger_splits]
    exact Multiset.coe_nodup.mpr splits

/-- No handle is given out twice, and none that the tree has at the beginning. As long as
a caller places only docks that the workspace has given out or that came with the tree,
each of them where it is not yet, no two splits and no two docks have one handle, and the
counters stay above all handles. -/
theorem handles_stay_unique (ws : Workspace K) (initial : ws.Initial) :
    (∀ pluginName pluginData, (ws.createDock pluginName pluginData).1.handle ∉ ws.dockHandles) ∧
    ws.newSplitHandle.1 ∉ ws.splitHandles ∧
    ∀ actions : List (Action K),
      ws.splitHandles.Disjoint ((Session.start ws).splitsIssued actions) ∧
      ((Session.start ws).splitsIssued actions).Nodup ∧
      ws.dockHandles.Disjoint (((Session.start ws).docksIssued actions).map Dock.handle) ∧
      (((Session.start ws).docksIssued actions).map Dock.handle).Nodup ∧
      (ws.splitHandles.Nodup → ws.dockHandles.Nodup →
        (Session.start ws).PlacesKnown ws.dockHandles actions →
        let later := ((Session.start ws).run actions).workspace
        later.splitHandles.Nodup ∧ later.dockHandles.Nodup ∧
          (∀ handle ∈ later.splitHandles, handle.value < later.nextSplit) ∧
          ∀ handle ∈ later.dockHandles, handle.value < later.nextDock) := by
  have whole : ws.Sound Regime.any := Regime.any_unconditional.initial initial
  refine ⟨?_, ?_, ?_⟩
  · intro pluginName pluginData present
    exact absurd (initial.docks_lt _ present) (Int.lt_irrefl _)
  · intro present
    exact absurd (whole.splitHandles_lt _ present) (Int.lt_irrefl _)
  · intro actions
    obtain ⟨splits, docks⟩ := (Session.start ws).run_counts actions
    refine ⟨splits.disjoint whole.splitHandles_lt, splits.nodup.of_map _,
      docks.disjoint initial.docks_lt, docks.nodup.of_map _, ?_⟩
    intro apart different places
    have sound : (Session.start ws).Sound Regime.any := .start whole
    have registers := Session.run_registers sound (initial.registers apart different) places
    have later : ((Session.start ws).run actions).Sound Regime.any :=
      sound.run fun action _ => Regime.any_unconditional.admitted action
    exact ⟨registers.splitHandles, registers.dockHandles.1, later.workspace.splitHandles_lt,
      registers.dockHandles.2⟩

/-- Two panels side by side, with numbers on both sides of zero. -/
def signed : Json ℚ :=
  let panel (value : Int) : Json ℚ := .obj [
    (Word.type, .str Word.container),
    (Word.docks, .arr [.obj [(Word.handle, .int value), (Word.pluginName, .null)]])]
  .obj [
    (Word.version, .int 1),
    (Word.root, .obj [
      (Word.type, .str Word.split),
      (Word.handle, .int (-2)),
      (Word.direction, .str Direction.vertical.name),
      (Word.ratios, .arr [.real (1 / 2), .real 1]),
      (Word.children, .arr [panel (-1), panel 3])])]

/-- A new dock is placed, an old one is taken out and placed again, and another is moved. -/
def errands : List (Action ℚ) := [
  .createDock .null none,
  .splitBy .horizontal ⟨-1⟩ ⟨⟨4⟩, .null, none⟩ false none,
  .removeDock ⟨3⟩,
  .newSplitHandle,
  .dropDock ⟨⟨3⟩, .null, none⟩ ⟨⟨4⟩, .left⟩,
  .moveDock ⟨-1⟩ ⟨⟨3⟩, .top⟩]

theorem handles_stay_unique_of_signed :
    ∃ ws : Workspace ℚ, ws.Initial ∧
      let later := ((Session.start ws).run errands).workspace
      ws.splitHandles = [⟨-2⟩] ∧ ws.dockHandles = [⟨-1⟩, ⟨3⟩] ∧
      (Session.start ws).PlacesKnown ws.dockHandles errands ∧
      (Session.start ws).splitsIssued errands = [⟨1⟩, ⟨2⟩, ⟨3⟩, ⟨4⟩] ∧
      later.dockHandles = [⟨-1⟩, ⟨3⟩, ⟨4⟩] ∧
      later.splitHandles.Nodup ∧ later.dockHandles.Nodup ∧
        (∀ handle ∈ later.splitHandles, handle.value < later.nextSplit) ∧
        ∀ handle ∈ later.dockHandles, handle.value < later.nextDock := by
  have checked : (decode signed none .standard).result.toOption.isSome ∧
      ∀ ws ∈ (decode signed none .standard).result.toOption,
        ws.splitHandles = [⟨-2⟩] ∧ ws.dockHandles = [⟨-1⟩, ⟨3⟩] ∧
          (Session.start ws).PlacesKnown ws.dockHandles errands ∧
          (Session.start ws).splitsIssued errands = [⟨1⟩, ⟨2⟩, ⟨3⟩, ⟨4⟩] ∧
          ((Session.start ws).run errands).workspace.dockHandles = [⟨-1⟩, ⟨3⟩, ⟨4⟩] := by
    decide +kernel
  cases read : (decode signed none .standard).result with
  | error error =>
    rw [read] at checked
    cases checked.1
  | ok ws =>
    rw [read] at checked
    obtain ⟨splits, docks, places, issued, left⟩ := checked.2 ws rfl
    have initial : ws.Initial := .loaded read
    have unique := (handles_stay_unique ws initial).2.2 errands
    have apart := unique.2.2.2.2 (by rw [splits]; decide) (by rw [docks]; decide) places
    exact ⟨ws, initial, splits, docks, places, issued, left, apart⟩

end Workspace

end DockLayout
