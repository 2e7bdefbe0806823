import DockLayout.Proofs.Tree.Ledger
import DockLayout.Proofs.Workspace.Move

/-!
# Keeping the ledger of a workspace

Whoever hears the events of a workspace from the beginning knows which docks and
splits are in its tree. Each operation posts what it changes, and takes out
nothing that has not come before.
-/

set_option autoImplicit false

namespace DockLayout

variable {K : Type}

/-! ## Outcomes -/

def Outcome.Posted {σ α : Type} (tally : σ → Ledger K) (before : Ledger K)
    (outcome : Outcome K σ α) : Prop :=
  Ledger.Replays before outcome.events (tally outcome.state)

namespace Outcome

variable {σ τ α β : Type} {tally : σ → Ledger K} {before : Ledger K}

theorem Posted.quiet (state : σ) (answer : α) :
    (Outcome.quiet state answer).Posted tally (tally state) := .nil (tally state)

theorem Posted.refuse (state : σ) (error : LayoutError K) :
    (Outcome.refuse state error : Outcome K σ α).Posted tally (tally state) := .nil (tally state)

theorem Posted.andThen {first : Outcome K σ α} {next : σ → α → Outcome K σ β}
    (posted : first.Posted tally before)
    (onward : ∀ answer, (next first.state answer).Posted tally (tally first.state)) :
    (first.andThen next).Posted tally before := by
  obtain ⟨⟨result, events⟩, state⟩ := first
  cases result with
  | error error => exact posted
  | ok answer => exact posted.append (onward answer)

end Outcome

/-! ## Operations of the workspace -/

namespace Workspace

def ledger (ws : Workspace K) : Ledger K := .ofRoot ws.root

theorem ledger_of_root {ws : Workspace K} {root : Area K} (rooted : ws.root = some root) :
    ws.ledger = ⟨↑root.docks, root.splits⟩ := by
  rw [ledger, rooted]
  rfl

/-- The ledger, with what the container at the end of a route contributes set apart. -/
theorem ledger_of_leads {ws : Workspace K} {root : Area K} {path : Path K} {panel : Container K}
    (rooted : ws.root = some root) (leads : path.Leads root (.container panel)) :
    ws.ledger = ⟨path.docksBeside + ↑panel.docks, path.splitsBeside⟩ := by
  rw [ledger_of_root rooted, leads.docks_eq, leads.splits_eq, Area.docks_container,
    Area.splits_container, add_zero]

theorem ledger_put (ws : Workspace K) {root target : Area K} {path : Path K}
    (leads : path.Leads root target) (panel : Container K) :
    ledger { ws with root := some (path.put (.container panel)) } =
      ⟨path.docksBeside + ↑panel.docks, path.splitsBeside⟩ := by
  rw [ledger_of_root rfl, leads.docks_put, leads.splits_put, Area.docks_container,
    Area.splits_container, add_zero]

theorem placeFirst_posted (ws : Workspace K) (dock : Dock K) :
    (ws.placeFirst dock).Posted ledger ws.ledger := by
  unfold placeFirst
  cases rooted : ws.root with
  | some root => exact .refuse ws .rootExists
  | none =>
    have nothing : ws.ledger = ⟨0, 0⟩ := by
      rw [ledger, rooted]
      rfl
    rw [nothing]
    exact .single (.dockAdded 0 0 dock)

variable [Scalar K]

theorem updateRect_posted (ws : Workspace K) (rect : Rect K) :
    (ws.updateRect rect).Posted ledger ws.ledger := by
  have same : (ws.updateRect rect).state.ledger = ws.ledger := by
    cases rooted : ws.root with
    | none => simp only [ledger, updateRect, Outcome.publish, rooted, Option.map_none]
    | some root =>
      simp only [ledger, updateRect, Outcome.publish, rooted, Option.map_some, Ledger.ofRoot,
        Area.docks, Area.groups_resize, Area.splits_resize]
  rw [Outcome.Posted, same]
  exact .single (.layoutUpdated ws.ledger rect)

theorem changeRatio_posted (ws : Workspace K) (handle : SplitHandle) (index : Int)
    (delta : Point K) : (ws.changeRatio handle index delta).Posted ledger ws.ledger := by
  rcases ws.changeRatio_cases handle index delta with
    ⟨-, missed⟩ | ⟨split, -, -, refused⟩ |
    ⟨split, moved, root, path, -, -, relaid, rooted, leads, changed⟩
  · rw [missed]
    exact .quiet ws false
  · rw [refused]
    exact .refuse ws _
  · have docks : moved.toArea.docks = split.toArea.docks := by
      rw [relaid, Area.docks, Area.docks, Split.groups_relayout, Split.toArea, Area.groups_split]
    have splits : moved.toArea.splits = split.toArea.splits := by
      rw [relaid, Split.splits_relayout, Split.toArea, Area.splits_split]
    have same : ledger { ws with root := some (path.put moved.toArea) } = ws.ledger := by
      rw [ledger_of_root rfl, ledger_of_root rooted, leads.docks_put, leads.splits_put, docks,
        splits, ← leads.docks_eq, ← leads.splits_eq]
    rw [changed, Outcome.Posted]
    simp only [Outcome.publish, same]
    exact .single (.ratioChanged ws.ledger handle index.toNat _)

theorem ledger_settle_pair (ws : Workspace K) {root : Area K} {path : Path K}
    {panel : Container K} (leads : path.Leads root (.container panel))
    (direction : Direction) (share : K) (handle : SplitHandle) (first second : Container K) :
    ledger { ws with root := some (path.settle (Split.pair direction share handle panel.rect
      (.container first) (.container second)).toArea) } =
        ⟨path.docksBeside + ↑(first.docks ++ second.docks), {handle} + path.splitsBeside⟩ := by
  have docks : (Split.pair direction share handle panel.rect (.container first)
      (.container second)).toArea.docks = first.docks ++ second.docks := by
    simp only [Area.docks, Split.pair, Split.groups_relayout, List.flatMap_cons, List.flatMap_nil,
      Area.groups_container, List.append_nil, List.cons_append, List.nil_append]
    rfl
  have splits : (Split.pair direction share handle panel.rect (.container first)
      (.container second)).toArea.splits = {handle} := by
    rw [Split.pair, Split.splits_relayout]
    rfl
  rw [ledger_of_root rfl, leads.docks_settle, leads.splits_settle, docks, splits,
    add_comm path.splitsBeside]

theorem splitBy_posted (ws : Workspace K) (direction : Direction) (target : DockHandle)
    (dock : Dock K) (before : Bool) (ratio : Option K) :
    (ws.splitBy direction target dock before ratio).Posted ledger ws.ledger := by
  unfold splitBy
  cases found : ws.locate? target with
  | none => exact .quiet ws false
  | some entry =>
    obtain ⟨path, panel⟩ := entry
    obtain ⟨root, rooted, leads, -⟩ := locate?_eq_some found
    generalize held : path.docksBeside + ↑panel.docks = docks
    have created := Ledger.Posts.splitCreated docks path.splitsBeside ⟨ws.nextSplit⟩
    have added := Ledger.Posts.dockAdded docks ({⟨ws.nextSplit⟩} + path.splitsBeside) dock
    have counts : ∀ tabs : List (Dock K), tabs.Perm (dock :: panel.docks) →
        path.docksBeside + ↑tabs = {dock} + docks := by
      intro tabs same
      rw [Multiset.coe_eq_coe.mpr same, ← Multiset.cons_coe, ← Multiset.singleton_add, ← held]
      abel
    rw [ledger_of_leads rooted leads, held]
    refine .cons created (.cons added ?_)
    cases before with
    | true =>
      have after := ledger_settle_pair ws.newSplitHandle.2 leads direction
        (1 - ratio.getD ws.config.defaultSplitRatio) ⟨ws.nextSplit⟩
        (ws.newContainer dock .zero) panel
      rw [counts (_ ++ _) (List.Perm.refl _)] at after
      rw [← after]
      exact .nil _
    | false =>
      have after := ledger_settle_pair ws.newSplitHandle.2 leads direction
        (ratio.getD ws.config.defaultSplitRatio) ⟨ws.nextSplit⟩
        panel (ws.newContainer dock .zero)
      rw [counts _ List.perm_append_comm] at after
      rw [← after]
      exact .nil _

omit [Scalar K] in
theorem addTab_posted (ws : Workspace K) (target : DockHandle) (dock : Dock K) :
    (ws.addTab target dock).Posted ledger ws.ledger := by
  unfold addTab
  cases found : ws.locate? target with
  | none => exact .quiet ws false
  | some entry =>
    obtain ⟨path, panel⟩ := entry
    obtain ⟨root, rooted, leads, -⟩ := locate?_eq_some found
    have after := ledger_put ws leads (panel.appendDock dock)
    have docks : path.docksBeside + ↑(panel.appendDock dock).docks =
        {dock} + (path.docksBeside + ↑panel.docks) := by
      rw [Container.appendDock, ← Multiset.coe_add, Multiset.coe_singleton]
      abel
    rw [docks] at after
    rw [ledger_of_leads rooted leads, Outcome.Posted]
    simp only [Outcome.publish, after]
    exact .single (.dockAdded _ _ dock)

theorem dropDock_posted (ws : Workspace K) (dock : Dock K) (target : DropTarget) :
    (ws.dropDock dock target).Posted ledger ws.ledger := by
  unfold dropDock
  cases target.zone.direction? with
  | none => exact ws.addTab_posted target.handle dock
  | some direction => exact ws.splitBy_posted direction target.handle dock _ none

omit [Scalar K] in
theorem setActiveDock_posted (ws : Workspace K) (handle : DockHandle) :
    (ws.setActiveDock handle).Posted ledger ws.ledger := by
  unfold setActiveDock
  cases found : ws.locate? handle with
  | none => exact .quiet ws false
  | some entry =>
    obtain ⟨path, panel⟩ := entry
    obtain ⟨root, rooted, leads, -, -, holds⟩ := locate?_eq_some found
    have docks : (panel.setActive handle).2.docks = panel.docks :=
      congrArg TabGroup.docks (Container.setActive_of_holds holds).2
    have after := ledger_put ws leads (panel.setActive handle).2
    rw [docks, ← ledger_of_leads rooted leads] at after
    rw [← after]
    exact .quiet { ws with root := some (path.put (.container (panel.setActive handle).2)) } _

theorem removeDock_posted {ws : Workspace K} (filled : ws.Filled) (handle : DockHandle) :
    (ws.removeDock handle).Posted ledger ws.ledger := by
  unfold removeDock
  cases found : ws.locate? handle with
  | none => exact .quiet ws none
  | some entry =>
    obtain ⟨path, panel⟩ := entry
    obtain ⟨root, rooted, leads, -, -, holds⟩ := locate?_eq_some found
    obtain ⟨dock, first, taken, changed⟩ := Container.removeDock_of_holds holds
    obtain ⟨same, named, again, moved⟩ := Container.docks_perm_without holds
    rw [first] at again
    obtain rfl := Option.some.inj again
    have pairEq : panel.removeDock handle = (some dock, (panel.removeDock handle).2) := by
      rw [← taken]
    generalize (panel.removeDock handle).2 = rest at changed pairEq
    have docks : (↑panel.docks : Multiset (Dock K)) = {dock} + ↑rest.docks := by
      have left : rest.docks = (panel.group.without handle).docks :=
        congrArg TabGroup.docks changed
      rw [Multiset.singleton_add, Multiset.cons_coe, left]
      exact (Multiset.coe_eq_coe.mpr moved).symm
    have before : ws.ledger = ⟨{dock} + (path.docksBeside + ↑rest.docks), path.splitsBeside⟩ := by
      rw [ledger_of_leads rooted leads, docks, add_left_comm]
    simp only [pairEq]
    by_cases empty : rest.docks.isEmpty = true
    · rw [if_pos empty]
      have whole := filled root rooted
      obtain ⟨left, groups⟩ := leads.groups_vacate whole
      have vacated := leads.replays_vacate whole ({dock} + path.docksBeside) 0
      have gone := Remains.replays_root left _ (by simpa only [zero_add] using vacated)
      have none : rest.docks = [] := List.isEmpty_iff.mp empty
      rw [none, Multiset.coe_nil, add_zero] at before
      rw [before]
      refine Ledger.Replays.append (by simpa only [zero_add] using gone) ?_
      have after : ledger { ws with root := (Remains.root path.vacate).1 } =
          ⟨path.docksBeside, (Remains.root path.vacate).1.elim 0 Area.splits⟩ := by
        rw [ledger, Ledger.ofRoot_eq, (Remains.groups_root left).2, groups, Path.docksBeside]
      simp only [Outcome.publish, after]
      exact .single (.dockRemoved _ _ dock)
    · rw [if_neg empty, before, Outcome.Posted]
      simp only [Outcome.publish, ledger_put ws leads rest]
      exact .single (.dockRemoved _ _ dock)

theorem moveDock_posted {ws : Workspace K} (filled : ws.Filled) (handle : DockHandle)
    (target : DropTarget) : (ws.moveDock handle target).Posted ledger ws.ledger := by
  rcases ws.moveDock_cases handle target with ⟨-, nothing⟩ | ⟨-, -, moves⟩
  · rw [nothing]
    exact .quiet ws false
  · rw [moves]
    refine (removeDock_posted filled handle).andThen ?_
    intro removed
    cases removed with
    | none => exact .quiet _ false
    | some dock => exact dropDock_posted _ dock target

end Workspace

/-! ## Sessions -/

namespace Session

def ledger (s : Session K) : Ledger K := s.workspace.ledger

theorem edit_posted {α : Type} (s : Session K) {outcome : Outcome K (Workspace K) α}
    (posted : outcome.Posted Workspace.ledger s.workspace.ledger) :
    (s.edit outcome).Posted ledger s.ledger := posted

variable [Scalar K]

theorem press_posted (s : Session K) (p : Point K) : (s.press p).Posted ledger s.ledger := by
  rcases s.press_cases p with ⟨-, ignored⟩ | ⟨target, -, -, started⟩
  · rw [ignored]
    exact .quiet s false
  · rw [started]
    exact .single (.operationStarted s.ledger target)

theorem motion_posted (s : Session K) (p : Point K) : (s.motion p).Posted ledger s.ledger := by
  rcases s.motion_cases p with ⟨-, idle⟩ | ⟨gesture, -, ⟨-, still⟩ |
    ⟨handle, index, -, ⟨split, -, -, refused⟩ | ⟨ws, answer, events, changed, moved⟩⟩⟩
  · rw [idle]
    exact .quiet s ()
  · rw [still]
    exact .nil s.ledger
  · rw [refused]
    exact .refuse s _
  · have posted := s.workspace.changeRatio_posted handle index
      ⟨gesture.last.x - p.x, gesture.last.y - p.y⟩
    rw [changed] at posted
    rw [moved]
    exact posted

theorem drop_posted {s : Session K} (filled : s.workspace.Filled) (gesture : Gesture K)
    (p : Point K) : (s.drop gesture p).Posted ledger s.ledger := by
  rcases s.drop_cases gesture p with
    ⟨-, missed⟩ | ⟨error, -, refused⟩ | ⟨handle, place, -, -, moved⟩
  · rw [missed]
    exact .quiet s false
  · rw [refused]
    exact .refuse s error
  · rw [moved]
    exact s.edit_posted (Workspace.moveDock_posted filled handle place)

theorem release_posted {s : Session K} {p : Point K}
    (filled : (s.motion p).state.workspace.Filled) :
    (s.release p).Posted ledger s.ledger := by
  cases held : s.gesture with
  | none =>
    rw [release_of_idle held]
    exact .quiet s false
  | some gesture =>
    rw [release_of_held held]
    refine (s.motion_posted p).andThen ?_
    intro moved
    have dropped := drop_posted (s := { (s.motion p).state with gesture := none }) filled
      gesture p
    refine Outcome.Posted.andThen dropped ?_
    intro changed
    exact .single (.operationEnded _ gesture.target)

omit [Scalar K] in
theorem cancel_posted (s : Session K) : s.cancel.Posted ledger s.ledger := by
  unfold cancel
  cases s.gesture with
  | none => exact .quiet s ()
  | some gesture => exact .single (.operationEnded s.ledger gesture.target)

theorem perform_posted {s : Session K} (sound : s.Sound Regime.any) (action : Action K) :
    (s.perform action).Posted ledger s.ledger := by
  have filled := sound.workspace.filled
  cases action with
  | createDock pluginName pluginData => exact .nil s.ledger
  | newSplitHandle => exact .nil s.ledger
  | placeFirst dock => exact s.edit_posted (s.workspace.placeFirst_posted dock)
  | updateRect rect => exact s.edit_posted (s.workspace.updateRect_posted rect)
  | changeRatio handle index delta =>
    exact s.edit_posted (s.workspace.changeRatio_posted handle index delta)
  | splitBy direction target dock before ratio =>
    exact s.edit_posted (s.workspace.splitBy_posted direction target dock before ratio)
  | addTab target dock => exact s.edit_posted (s.workspace.addTab_posted target dock)
  | dropDock dock target => exact s.edit_posted (s.workspace.dropDock_posted dock target)
  | removeDock handle => exact s.edit_posted (Workspace.removeDock_posted filled handle)
  | moveDock handle target => exact s.edit_posted (Workspace.moveDock_posted filled handle target)
  | setActiveDock handle => exact s.edit_posted (s.workspace.setActiveDock_posted handle)
  | press p => exact s.press_posted p
  | motion p => exact s.motion_posted p
  | release p => exact release_posted (sound.motion trivial).workspace.filled
  | cancel => exact s.cancel_posted

/-- What is posted during a run leads from the ledger at its beginning to that at its
end. -/
theorem history_replays {s : Session K} (sound : s.Sound Regime.any)
    (actions : List (Action K)) :
    Ledger.Replays s.ledger (s.history actions) (s.run actions).ledger := by
  induction actions generalizing s with
  | nil => exact .nil s.ledger
  | cons action rest ih =>
    have stepped := sound.perform (Regime.any_unconditional.admitted action)
    exact (perform_posted sound action).append (ih stepped)

end Session

/-! ## From the beginning -/

namespace Workspace

variable [Scalar K]

/-- A workspace and the tree that a listener knows of at the beginning: there is none
yet, or it was announced at the end of the reading. -/
inductive Opens : Workspace K → Option (Area K) → Prop
  | empty (rect : Rect K) (config : Config K) : Opens (empty rect config) none
  | loaded {value : Json K} {rect : Option (Rect K)} {config : Config K} {ws : Workspace K}
      {earlier : List (Event K)} {announced : Option (Area K)}
      (read : decode value rect config =
        { result := .ok ws, events := earlier ++ [.layoutLoaded announced] }) :
      Opens ws announced

theorem Opens.initial {ws : Workspace K} {announced : Option (Area K)}
    (opens : ws.Opens announced) : ws.Initial := by
  cases opens with
  | empty rect config => exact .empty rect config
  | @loaded value rect config ws earlier announced read =>
    have result : (decode value rect config).result = .ok ws := by rw [read]
    exact .loaded result

theorem decode_announces {value : Json K} {rect : Option (Rect K)} {config : Config K}
    {ws : Workspace K} (read : (decode value rect config).result = .ok ws) :
    (decode value rect config).events.getLast? = some (.layoutLoaded ws.root) := by
  unfold decode at read ⊢
  cases loaded : (rootData value).bind decodeRoot with
  | error error =>
    rw [loaded] at read
    cases read
  | ok root =>
    rw [loaded] at read
    cases rect with
    | none =>
      obtain rfl := Except.ok.inj read
      rfl
    | some rect =>
      obtain rfl := Except.ok.inj read
      exact List.getLast?_concat

theorem Opens.of_decode {value : Json K} {rect : Option (Rect K)} {config : Config K}
    {ws : Workspace K} (read : (decode value rect config).result = .ok ws) :
    ws.Opens ws.root := by
  obtain ⟨earlier, ends⟩ := List.getLast?_eq_some_iff.mp (decode_announces read)
  have same : decode value rect config =
      { result := .ok ws, events := earlier ++ [.layoutLoaded ws.root] } := by
    rw [← ends, ← read]
  exact .loaded same

theorem Opens.ledger_eq {ws : Workspace K} {announced : Option (Area K)}
    (opens : ws.Opens announced) : ws.ledger = .ofRoot announced := by
  cases opens with
  | empty rect config => rfl
  | @loaded value rect config ws earlier announced read =>
    have result : (decode value rect config).result = .ok ws := by rw [read]
    have last := decode_announces result
    rw [read, List.getLast?_concat, Option.some.injEq, Event.layoutLoaded.injEq] at last
    rw [ledger, last]

/-- Whoever adds what the events of a run say has come to the tree known at the
beginning, and takes out what they say has gone, never misses what is to be taken out,
and holds the docks and splits of the present tree. -/
theorem events_account_for_tree {ws : Workspace K} {announced : Option (Area K)}
    (opens : ws.Opens announced) (actions : List (Action K)) :
    Ledger.Replays (.ofRoot announced) ((Session.start ws).history actions)
        (.ofRoot ((Session.start ws).run actions).workspace.root) ∧
      Ledger.Balances (.ofRoot announced) ((Session.start ws).history actions)
        (.ofRoot ((Session.start ws).run actions).workspace.root) := by
  have sound : (Session.start ws).Sound Regime.any :=
    .start (Regime.any_unconditional.initial opens.initial)
  have replays := Session.history_replays sound actions
  rw [← opens.ledger_eq]
  exact ⟨replays, replays.balances⟩

/-- A panel beside two splits of the same handle, one in the other, with a panel of the
same dock as their only content. -/
def chained : Json ℚ :=
  let panel : Json ℚ := .obj [
    (Word.type, .str Word.container),
    (Word.docks, .arr [.obj [(Word.handle, .int 1), (Word.pluginName, .null)]])]
  let cut (handle : Int) (direction : Direction) (ratios : List ℚ) (children : List (Json ℚ)) :
      Json ℚ := .obj [
    (Word.type, .str Word.split),
    (Word.handle, .int handle),
    (Word.direction, .str direction.name),
    (Word.ratios, .arr (ratios.map .real)),
    (Word.children, .arr children)]
  .obj [
    (Word.version, .int 1),
    (Word.root, cut 1 .vertical [1 / 2, 1]
      [panel, cut 2 .horizontal [1] [cut 2 .vertical [1] [panel]]])]

/-- Closing the first panel leaves the chain in the place of the root; closing the other
takes the chain away. -/
theorem events_account_for_tree_of_chained :
    ∃ ws : Workspace ℚ, ws.Opens ws.root ∧
      let run : List (Action ℚ) := [.removeDock ⟨1⟩, .removeDock ⟨1⟩, .removeDock ⟨1⟩]
      ((Session.start ws).history run).filterMap Event.dissolved? = [⟨1⟩, ⟨2⟩, ⟨2⟩] ∧
      Ledger.Replays (.ofRoot ws.root) ((Session.start ws).history run)
        (.ofRoot ((Session.start ws).run run).workspace.root) ∧
      Ledger.Balances (.ofRoot ws.root) ((Session.start ws).history run)
        (.ofRoot ((Session.start ws).run run).workspace.root) := by
  have gone : (decode chained none .standard).result.toOption.map (fun ws =>
      ((Session.start ws).history
        [.removeDock ⟨1⟩, .removeDock ⟨1⟩, .removeDock ⟨1⟩]).filterMap Event.dissolved?) =
        some [⟨1⟩, ⟨2⟩, ⟨2⟩] := by decide +kernel
  cases read : (decode chained none .standard).result with
  | error error =>
    rw [read] at gone
    cases gone
  | ok ws =>
    rw [read] at gone
    have opens : ws.Opens ws.root := .of_decode read
    exact ⟨ws, opens, Option.some.inj gone, events_account_for_tree opens _⟩

end Workspace

end DockLayout
