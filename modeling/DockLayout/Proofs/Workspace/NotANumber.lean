import DockLayout.Proofs.Tree.RatioLists
import DockLayout.Proofs.Workspace.Reachable
import DockLayout.Proofs.Workspace.RoundTrip

/-!
# Losing a ratio

A run on doubles keeps the ratios of every split in order until an action
computes one that is no number, and from then on the layout shows it. Which
actions do this can be told from their arguments and the tree they meet.
-/

set_option autoImplicit false

namespace DockLayout

namespace Workspace

def ratioLists {K : Type} (ws : Workspace K) : List (List K) := ws.root.elim [] Area.ratioLists

theorem ratioLists_of_root {K : Type} {ws : Workspace K} {root : Area K}
    (rooted : ws.root = some root) : ws.ratioLists = root.ratioLists := by
  rw [ratioLists, rooted, Option.elim_some]

theorem forall_ratioLists_iff {K : Type} {ws : Workspace K} {P : List K → Prop} :
    (∀ ratios ∈ ws.ratioLists, P ratios) ↔ ∀ area ∈ ws.areas, ∀ split ∈ area.split?,
      P split.ratios := by
  cases same : ws.root with
  | none => simp [ratioLists, areas, same]
  | some root =>
    rw [ratioLists_of_root same, areas, same]
    simp only [Area.visit_eq, Area.ratioLists, Area.readings, List.mem_filterMap,
      Option.map_eq_some_iff]
    constructor
    · intro every area listed split found
      exact every split.ratios ⟨area, listed, split, found, rfl⟩
    · rintro every ratios ⟨area, listed, split, found, rfl⟩
      exact every area listed split found

section Located

variable {K : Type} {ws : Workspace K} {handle : DockHandle} {path : Path K}
  {panel : Container K} {ratios : List K}

theorem mem_ratioLists_put (found : ws.locate? handle = some (path, panel)) (new : Area K) :
    ratios ∈ (path.put new).ratioLists ↔ ratios ∈ ws.ratioLists ∨ ratios ∈ new.ratioLists := by
  obtain ⟨root, same, leads, -⟩ := locate?_eq_some found
  rw [leads.mem_ratioLists_put, ratioLists_of_root same, leads.mem_ratioLists,
    Area.ratioLists_container]
  simp

theorem mem_ratioLists_settle [Scalar K] (found : ws.locate? handle = some (path, panel))
    (new : Area K) :
    ratios ∈ (path.settle new).ratioLists ↔ ratios ∈ ws.ratioLists ∨ ratios ∈ new.ratioLists := by
  obtain ⟨root, same, leads, -⟩ := locate?_eq_some found
  rw [leads.mem_ratioLists_settle, ratioLists_of_root same, leads.mem_ratioLists,
    Area.ratioLists_container]
  simp

end Located

def AllNumeric (ws : Workspace Float) : Prop :=
  ∀ area ∈ ws.areas, ∀ split ∈ area.split?, Numeric split.ratios

structure Orderly (ws : Workspace Float) : Prop where
  share : ws.config.defaultSplitRatio.isNaN = false
  ordered : ∀ ratios ∈ ws.ratioLists, Ordered ratios

/-- What an operation leaves of an orderly workspace: an orderly one, unless it has
lost a ratio, and then one that shows it. -/
structure Leaves (lost : Prop) (after : Workspace Float) : Prop where
  orderly : ¬ lost → after.Orderly
  broken : lost → ∃ ratios ∈ after.ratioLists, ¬ Numeric ratios

theorem Leaves.of_orderly {after : Workspace Float} (orderly : after.Orderly) {lost : Prop}
    (never : ¬ lost) : after.Leaves lost where
  orderly := fun _ => orderly
  broken := fun happened => absurd happened never

variable {ws : Workspace Float}

theorem Orderly.withRoot (orderly : ws.Orderly) {root : Area Float}
    (ordered : ∀ ratios ∈ root.ratioLists, Ordered ratios) :
    Orderly { ws with root := some root } where
  share := orderly.share
  ordered := ordered

theorem Orderly.putPanel (orderly : ws.Orderly) {handle : DockHandle} {path : Path Float}
    {panel : Container Float} (found : ws.locate? handle = some (path, panel))
    (other : Container Float) :
    Orderly { ws with root := some (path.put (.container other)) } := by
  apply orderly.withRoot
  intro ratios listed
  rw [mem_ratioLists_put found, Area.ratioLists_container] at listed
  exact orderly.ordered ratios (listed.resolve_right List.not_mem_nil)

theorem Orderly.allNumeric (orderly : ws.Orderly) : ws.AllNumeric :=
  forall_ratioLists_iff.mp fun ratios listed => (orderly.ordered ratios listed).numeric

theorem Orderly.sorted (orderly : ws.Orderly) :
    ∀ area ∈ ws.areas, ∀ split ∈ area.split?, split.ratios.Pairwise (· ≤ ·) :=
  forall_ratioLists_iff.mp fun ratios listed => (orderly.ordered ratios listed).sorted

/-! ## Splitting -/

def LosesShare (ws : Workspace Float) (target : DockHandle) (ratio : Option Float) : Prop :=
  (ws.locate? target).isSome = true ∧ ∃ share ∈ ratio, share.isNaN = true

theorem losesShare_iff (orderly : ws.Orderly) {target : DockHandle}
    {entry : Path Float × Container Float} (found : ws.locate? target = some entry)
    (ratio : Option Float) :
    ws.LosesShare target ratio ↔
      (ratio.getD ws.config.defaultSplitRatio).isNaN = true := by
  rw [LosesShare, found]
  cases ratio with
  | none =>
    refine iff_of_false ?_ (Bool.eq_false_iff.mp orderly.share)
    rintro ⟨-, share, none, -⟩
    cases none
  | some share => simp

theorem Orderly.settle (orderly : ws.Orderly) {handle : DockHandle} {path : Path Float}
    {panel : Container Float} (found : ws.locate? handle = some (path, panel))
    {new : Area Float} {share : Float} (lists : new.ratioLists = [[Split.bounded share, 1]])
    (next : Int) :
    Leaves (share.isNaN = true) { ws with nextSplit := next, root := some (path.settle new) } where
  orderly := by
    intro number
    refine ⟨orderly.share, ?_⟩
    intro ratios listed
    change ratios ∈ (path.settle new).ratioLists at listed
    rw [mem_ratioLists_settle found, lists, List.mem_singleton] at listed
    rcases listed with old | rfl
    · exact orderly.ordered ratios old
    · have isNumber : Rounding.IsNumber share := eq_false_of_ne_true number
      exact .pair isNumber
  broken := by
    intro lost
    refine ⟨[Split.bounded share, 1], ?_, Split.not_numeric_pair lost⟩
    change _ ∈ (path.settle new).ratioLists
    rw [mem_ratioLists_settle found, lists]
    exact .inr (List.mem_singleton_self _)

theorem splitBy_leaves (orderly : ws.Orderly) (direction : Direction) (target : DockHandle)
    (dock : Dock Float) (before : Bool) (ratio : Option Float) :
    (ws.splitBy direction target dock before ratio).state.Leaves (ws.LosesShare target ratio) := by
  unfold splitBy
  cases found : ws.locate? target with
  | none =>
    apply Leaves.of_orderly orderly
    rintro ⟨some, -⟩
    rw [found] at some
    cases some
  | some entry =>
    obtain ⟨path, panel⟩ := entry
    have lists (share : Float) (first second : Container Float) :
        (Split.pair direction share ⟨ws.nextSplit⟩ panel.rect (.container first)
          (.container second)).toArea.ratioLists = [[Split.bounded share, 1]] :=
      Split.ratioLists_relayout _
    rw [losesShare_iff orderly found]
    cases before with
    | true =>
      rw [← Split.isNaN_complement]
      exact orderly.settle found (lists _ _ _) _
    | false => exact orderly.settle found (lists _ _ _) _

/-! ## Moving a boundary -/

/-- A boundary is moved by a displacement that has no quotient with the extent. -/
def LosesShift (ws : Workspace Float) (handle : SplitHandle) (index : Int)
    (delta : Point Float) : Prop :=
  ∃ split, ws.findSplit? handle = some split ∧ (0 ≤ index ∧ index + 1 < split.ratios.length) ∧
    split.Blurs delta

theorem changeRatio_leaves (orderly : ws.Orderly) (handle : SplitHandle) (index : Int)
    (delta : Point Float) :
    (ws.changeRatio handle index delta).state.Leaves (ws.LosesShift handle index delta) := by
  rcases ws.changeRatio_cases handle index delta with
    ⟨none, missed⟩ | ⟨split, found, invalid, refused⟩ |
    ⟨split, moved, root, path, found, valid, rfl, same, leads, changed⟩
  · rw [missed]
    apply Leaves.of_orderly orderly
    rintro ⟨split, found, -⟩
    exact absurd (none.symm.trans found) nofun
  · rw [refused]
    apply Leaves.of_orderly orderly
    rintro ⟨other, named, valid, -⟩
    obtain rfl : other = split := Option.some.inj (named.symm.trans found)
    exact invalid valid
  · rw [changed]
    have ordered := orderly.ordered
    simp only [ratioLists_of_root same, leads.mem_ratioLists, Split.toArea,
      Area.ratioLists_split, List.mem_cons] at ordered
    have inside : index.toNat + 1 < split.ratios.length := by omega
    have own : Ordered split.ratios := ordered _ (.inr (.inl rfl))
    have mem (ratios : List Float) : ratios ∈ (path.put (Split.relayout { split with
        ratios := split.ratios.set index.toNat (split.movedRatio index.toNat delta)
        }).toArea).ratioLists ↔ ratios ∈ path.ratiosBeside ∨
          ratios = split.ratios.set index.toNat (split.movedRatio index.toNat delta) ∨
          ratios ∈ split.children.flatMap Area.ratioLists := by
      rw [leads.mem_ratioLists_put, Split.ratioLists_relayout, List.mem_cons]
    constructor
    · intro fine
      apply orderly.withRoot
      intro ratios listed
      rcases (mem ratios).mp listed with outer | rfl | inner
      · exact ordered ratios (.inl outer)
      · apply own.moved _ inside
        by_contra lost
        have blurs := (split.isNaN_ratioDelta_iff delta).mp (eq_true_of_ne_false lost)
        exact fine ⟨split, found, valid, blurs⟩
      · exact ordered ratios (.inr (.inr inner))
    · rintro ⟨other, named, -, blurs⟩
      obtain rfl : other = split := Option.some.inj (named.symm.trans found)
      exact ⟨_, (mem _).mpr (.inr (.inl rfl)), Split.not_numeric_moved (by omega) blurs⟩

/-! ## Removing -/

/-- A container goes away with its last dock, and the widths or heights that are
spliced in overflow. -/
def LosesSplice (ws : Workspace Float) (handle : DockHandle) : Prop :=
  ∃ path panel, ws.locate? handle = some (path, panel) ∧ panel.docks.length = 1 ∧
    ∃ inner ∈ path.spliced?, inner.Overflows

theorem removeDock_leaves (sound : ws.Sound Regime.any) (orderly : ws.Orderly)
    (handle : DockHandle) :
    (ws.removeDock handle).state.Leaves (ws.LosesSplice handle) := by
  cases found : ws.locate? handle with
  | none =>
    simp only [removeDock, found]
    apply Leaves.of_orderly orderly
    rintro ⟨path, panel, named, -⟩
    rw [found] at named
    cases named
  | some entry =>
    obtain ⟨path, panel⟩ := entry
    obtain ⟨root, same, leads, -⟩ := locate?_eq_some found
    obtain ⟨tree, place⟩ := sound.tree root same
    obtain ⟨emptied, kept⟩ := removeDock_of_locate? found
    have ordered := orderly.ordered
    rw [ratioLists_of_root same] at ordered
    have named {other : Path Float} {shown : Container Float}
        (also : ws.locate? handle = some (other, shown)) : other = path ∧ shown = panel := by
      rw [found] at also
      cases also
      exact ⟨rfl, rfl⟩
    by_cases last : panel.docks.length = 1
    · have lists := Remains.ratioLists_root (leads.sound_vacate tree)
      rw [emptied last]
      constructor
      · intro fits
        refine ⟨orderly.share, ?_⟩
        change ∀ ratios ∈ (Remains.root path.vacate).1.elim [] Area.ratioLists, Ordered ratios
        rw [lists]
        apply leads.ordered_vacate tree ordered
        intro inner spliced overflows
        exact fits ⟨path, panel, found, last, inner, spliced, overflows⟩
      · rintro ⟨other, shown, also, -, inner, spliced, overflows⟩
        obtain ⟨rfl, rfl⟩ := named also
        change ∃ ratios ∈ (Remains.root other.vacate).1.elim [] Area.ratioLists, _
        rw [lists]
        exact leads.not_numeric_vacate tree spliced overflows
    · obtain ⟨docks, active, shown, state⟩ := kept last
      rw [state]
      apply Leaves.of_orderly (orderly.putPanel found _)
      rintro ⟨other, shown, also, single, -⟩
      obtain ⟨-, rfl⟩ := named also
      exact last single

/-! ## Tabs and drops -/

theorem Orderly.placeFirst (orderly : ws.Orderly) (dock : Dock Float) :
    (ws.placeFirst dock).state.Orderly := by
  unfold Workspace.placeFirst
  cases ws.root with
  | some root => exact orderly
  | none => exact orderly.withRoot fun ratios listed => nomatch listed

theorem ratioLists_updateRect (ws : Workspace Float) (rect : Rect Float) :
    (ws.updateRect rect).state.ratioLists = ws.ratioLists := by
  cases same : ws.root <;> simp [Workspace.updateRect, Outcome.publish, ratioLists, same]

theorem Orderly.updateRect (orderly : ws.Orderly) (rect : Rect Float) :
    (ws.updateRect rect).state.Orderly where
  share := orderly.share
  ordered := by
    rw [ratioLists_updateRect]
    exact orderly.ordered

theorem Orderly.addTab (orderly : ws.Orderly) (target : DockHandle) (dock : Dock Float) :
    (ws.addTab target dock).state.Orderly := by
  unfold Workspace.addTab
  cases found : ws.locate? target with
  | none => exact orderly
  | some entry => exact orderly.putPanel found _

theorem Orderly.setActiveDock (orderly : ws.Orderly) (handle : DockHandle) :
    (ws.setActiveDock handle).state.Orderly := by
  unfold Workspace.setActiveDock
  cases found : ws.locate? handle with
  | none => exact orderly
  | some entry => exact orderly.putPanel found _

theorem Orderly.dropDock (orderly : ws.Orderly) (dock : Dock Float) (target : DropTarget) :
    (ws.dropDock dock target).state.Orderly := by
  unfold Workspace.dropDock
  cases target.zone.direction? with
  | none => exact orderly.addTab target.handle dock
  | some direction =>
    apply (splitBy_leaves orderly direction target.handle dock _ none).orderly
    rintro ⟨-, share, none, -⟩
    cases none

theorem mem_ratioLists_dropDock (dock : Dock Float) (target : DropTarget) {ratios : List Float}
    (listed : ratios ∈ ws.ratioLists) : ratios ∈ (ws.dropDock dock target).state.ratioLists := by
  unfold dropDock
  cases target.zone.direction? with
  | none =>
    simp only [addTab]
    cases found : ws.locate? target.handle with
    | none => exact listed
    | some entry => exact (mem_ratioLists_put found _).mpr (.inl listed)
  | some direction =>
    simp only [splitBy]
    cases found : ws.locate? target.handle with
    | none => exact listed
    | some entry => exact (mem_ratioLists_settle found _).mpr (.inl listed)

/-- A dock is moved away from where its removal loses a ratio. -/
def LosesMove (ws : Workspace Float) (handle : DockHandle) (target : DropTarget) : Prop :=
  handle ≠ target.handle ∧ (ws.findContainer? target.handle).isSome = true ∧
    ws.LosesSplice handle

theorem moveDock_leaves (sound : ws.Sound Regime.any) (orderly : ws.Orderly)
    (handle : DockHandle) (target : DropTarget) :
    (ws.moveDock handle target).state.Leaves (ws.LosesMove handle target) := by
  rcases ws.moveDock_cases handle target with ⟨blocked, nothing⟩ | ⟨other, present, moves⟩
  · rw [nothing]
    apply Leaves.of_orderly orderly
    rintro ⟨other, present, -⟩
    rw [blocked.resolve_left other] at present
    cases present
  · have entry : ws.LosesMove handle target ↔ ws.LosesSplice handle := by
      rw [LosesMove, and_iff_right other, and_iff_right present]
    rw [entry, moves]
    refine Outcome.andThen_holds (P := Leaves (ws.LosesSplice handle))
      (removeDock_leaves sound orderly handle) fun rest answer left => ?_
    cases answer with
    | none => exact left
    | some dock =>
      -- The drop uses the usual share and so loses nothing, but it mends nothing either.
      refine ⟨fun fine => (left.orderly fine).dropDock dock target, fun lost => ?_⟩
      obtain ⟨ratios, listed, broken⟩ := left.broken lost
      exact ⟨ratios, mem_ratioLists_dropDock dock target listed, broken⟩

end Workspace

/-! ## Sessions -/

namespace Session

open Workspace (Leaves Orderly)

def LosesDrag (s : Session Float) (p : Point Float) : Prop :=
  match s.gesture with
  | some ⟨.resize, .sizer handle index _, last⟩ =>
      s.workspace.LosesShift handle index ⟨last.x - p.x, last.y - p.y⟩
  | _ => False

def LosesDrop (s : Session Float) (p : Point Float) : Prop :=
  match s.gesture with
  | some ⟨.moveDock, .tab handle, _⟩ =>
      ∃ place, s.workspace.dropTarget? p = .ok (some place) ∧ s.workspace.LosesMove handle place
  | _ => False

def Loses (s : Session Float) : Action Float → Prop
  | .splitBy _ target _ _ ratio => s.workspace.LosesShare target ratio
  | .changeRatio handle index delta => s.workspace.LosesShift handle index delta
  | .removeDock handle => s.workspace.LosesSplice handle
  | .moveDock handle target => s.workspace.LosesMove handle target
  | .motion p => s.LosesDrag p
  | .release p => s.LosesDrag p ∨ s.LosesDrop p
  | _ => False

variable {s : Session Float}

theorem motion_leaves (sound : s.Sound Regime.any) (orderly : s.workspace.Orderly)
    (p : Point Float) : (s.motion p).state.workspace.Leaves (s.LosesDrag p) := by
  unfold LosesDrag
  cases held : s.gesture with
  | none =>
    rw [motion_of_idle held]
    exact .of_orderly orderly id
  | some gesture =>
    have kind := sound.kind gesture held
    obtain ⟨_, target, last⟩ := gesture
    obtain rfl : _ = target.gestureKind := kind
    cases target with
    | tab handle =>
      rw [motion_of_tab held]
      exact .of_orderly orderly id
    | sizer handle index direction =>
      have moved := Workspace.changeRatio_leaves orderly handle index ⟨last.x - p.x, last.y - p.y⟩
      rw [motion_of_sizer held]
      exact Outcome.andThen_holds (P := fun arrived : Session Float => arrived.workspace.Leaves _)
        moved fun _ _ reached => reached

theorem drop_leaves (sound : s.Sound Regime.any) (orderly : s.workspace.Orderly)
    {gesture : Gesture Float} {handle : DockHandle} (moves : gesture.dock? = some handle)
    (p : Point Float) :
    (s.drop gesture p).state.workspace.Leaves
      (∃ place, s.workspace.dropTarget? p = .ok (some place) ∧
        s.workspace.LosesMove handle place) := by
  simp only [drop, moves]
  cases found : s.workspace.dropTarget? p with
  | error error =>
    apply Leaves.of_orderly orderly
    rintro ⟨place, same, -⟩
    cases same
  | ok target =>
    cases target with
    | none =>
      apply Leaves.of_orderly orderly
      rintro ⟨place, same, -⟩
      cases same
    | some place =>
      have moved := Workspace.moveDock_leaves sound.workspace orderly handle place
      constructor
      · exact fun fine => moved.orderly fun lost => fine ⟨place, rfl, lost⟩
      · rintro ⟨other, same, lost⟩
        cases same
        exact moved.broken lost

theorem release_leaves (sound : s.Sound Regime.any) (orderly : s.workspace.Orderly)
    (p : Point Float) :
    (s.release p).state.workspace.Leaves (s.LosesDrag p ∨ s.LosesDrop p) := by
  have moved := motion_leaves sound orderly p
  unfold LosesDrop
  cases held : s.gesture with
  | none =>
    rw [release_of_idle held]
    apply Leaves.of_orderly orderly
    simp [LosesDrag, held]
  | some gesture =>
    have kind := sound.kind gesture held
    obtain ⟨_, target, last⟩ := gesture
    obtain rfl : _ = target.gestureKind := kind
    cases target with
    | sizer handle index direction =>
      simp only [DragTarget.gestureKind, or_false]
      rw [release_of_held held]
      exact Outcome.andThen_holds (P := fun arrived : Session Float => arrived.workspace.Leaves _)
        moved fun _ _ reached => reached
    | tab handle =>
      have moves : (⟨.moveDock, .tab handle, last⟩ : Gesture Float).dock? = some handle := rfl
      have dropped := drop_leaves sound.idle orderly moves p
      have undragged : ¬ s.LosesDrag p := by
        rw [LosesDrag, held]
        exact id
      rw [or_iff_right undragged, release_of_held held, motion_of_tab held, Outcome.quiet_andThen]
      exact Outcome.andThen_holds (P := fun ended : Session Float => ended.workspace.Leaves _)
        dropped fun _ _ reached => reached

theorem perform_leaves (sound : s.Sound Regime.any) (orderly : s.workspace.Orderly)
    (action : Action Float) : (s.perform action).state.workspace.Leaves (s.Loses action) := by
  cases action with
  | createDock pluginName pluginData =>
    have kept : (s.workspace.createDock pluginName pluginData).2.Orderly :=
      ⟨orderly.share, orderly.ordered⟩
    exact .of_orderly kept id
  | newSplitHandle =>
    have kept : s.workspace.newSplitHandle.2.Orderly := ⟨orderly.share, orderly.ordered⟩
    exact .of_orderly kept id
  | placeFirst dock => exact .of_orderly (orderly.placeFirst dock) id
  | updateRect rect => exact .of_orderly (orderly.updateRect rect) id
  | changeRatio handle index delta => exact Workspace.changeRatio_leaves orderly handle index delta
  | splitBy direction target dock before ratio =>
    exact Workspace.splitBy_leaves orderly direction target dock before ratio
  | addTab target dock => exact .of_orderly (orderly.addTab target dock) id
  | dropDock dock target => exact .of_orderly (orderly.dropDock dock target) id
  | removeDock handle => exact Workspace.removeDock_leaves sound.workspace orderly handle
  | moveDock handle target => exact Workspace.moveDock_leaves sound.workspace orderly handle target
  | setActiveDock handle => exact .of_orderly (orderly.setActiveDock handle) id
  | press p =>
    have kept : (s.press p).state.workspace.Orderly := by
      rcases s.press_cases p with ⟨-, ignored⟩ | ⟨target, -, -, started⟩
      · rwa [ignored]
      · rwa [started]
    exact .of_orderly kept id
  | motion p => exact motion_leaves sound orderly p
  | release p => exact release_leaves sound orderly p
  | cancel =>
    have kept : s.cancel.state.workspace.Orderly := by
      unfold cancel
      split <;> exact orderly
    exact .of_orderly kept id

/-! ## Runs -/

theorem orderly_run (sound : s.Sound Regime.any) (orderly : s.workspace.Orderly)
    {actions : List (Action Float)}
    (fine : ∀ done action, done ++ [action] <+: actions → ¬ (s.run done).Loses action) :
    (s.run actions).workspace.Orderly := by
  induction actions generalizing s with
  | nil => exact orderly
  | cons action rest ih =>
    have first := fine [] action (List.cons_prefix_cons.mpr ⟨rfl, List.nil_prefix⟩)
    apply ih (sound.perform (Regime.any_unconditional.admitted action))
      ((perform_leaves sound orderly action).orderly first)
    intro done later onward
    exact fine (action :: done) later (List.cons_prefix_cons.mpr ⟨rfl, onward⟩)

theorem not_loses_of_numeric (sound : s.Sound Regime.any) (orderly : s.workspace.Orderly)
    {actions : List (Action Float)}
    (numeric : ∀ done, done <+: actions → (s.run done).workspace.AllNumeric) :
    ∀ done action, done ++ [action] <+: actions → ¬ (s.run done).Loses action := by
  induction actions generalizing s with
  | nil =>
    intro done action onward
    exact absurd (List.prefix_nil.mp onward) (List.append_ne_nil_of_right_ne_nil _ nofun)
  | cons action rest ih =>
    have left := perform_leaves sound orderly action
    have first : ¬ s.Loses action := by
      intro lost
      -- The state after the action is shown too, and there the loss would be seen.
      obtain ⟨ratios, listed, broken⟩ := left.broken lost
      have next := numeric [action] (List.cons_prefix_cons.mpr ⟨rfl, List.nil_prefix⟩)
      exact broken (Workspace.forall_ratioLists_iff.mpr next ratios listed)
    intro done later onward
    cases done with
    | nil =>
      obtain ⟨rfl, -⟩ := List.cons_prefix_cons.mp onward
      exact first
    | cons earlier done =>
      obtain ⟨rfl, inside⟩ := List.cons_prefix_cons.mp onward
      refine ih (sound.perform (Regime.any_unconditional.admitted _)) (left.orderly first) ?_
        done later inside
      intro others within
      exact numeric (_ :: others) (List.cons_prefix_cons.mpr ⟨rfl, within⟩)

end Session

namespace Workspace

variable {ws : Workspace Float}

theorem ratioLists_around (config : Config Float) (root : Option (Area Float)) :
    (around config root).ratioLists = root.elim [] Area.ratioLists := by
  rw [ratioLists, root_around]
  cases root with
  | none => rfl
  | some area => exact Area.ratioLists_configure config area

theorem orderly_of_initial (initial : ws.Initial) (checked : ws.config.check = .ok ws.config)
    (numeric : ws.AllNumeric) : ws.Orderly := by
  have lists := forall_ratioLists_iff.mpr numeric
  refine ⟨isNumber_defaultSplitRatio checked, ?_⟩
  cases initial with
  | empty rect config => exact fun ratios listed => absurd listed List.not_mem_nil
  | @loaded value rect config _ read =>
    rw [decode] at read
    cases loaded : (rootData value).bind decodeRoot with
    | error error => simp [loaded] at read
    | ok root =>
      have same : ws.ratioLists = root.elim [] Area.ratioLists := by
        cases rect with
        | none =>
          simp only [loaded, Except.ok.injEq] at read
          rw [← read, ratioLists_around]
        | some rect =>
          simp only [loaded, Except.ok.injEq] at read
          rw [← read, ratioLists_updateRect, ratioLists_around]
      rw [same] at lists ⊢
      cases root with
      | none => exact fun ratios listed => absurd listed List.not_mem_nil
      | some area => exact (root_assembled loaded area rfl).ordered lists

/-- A run on doubles never shows a ratio that is no number if and only if it begins
with numbers and no action loses one; and then all ratios are in order. A layout
file is read as it is: a split has such a ratio when one was written for it. -/
theorem ratios_stay_numbers_unless_lost (ws : Workspace Float) (initial : ws.Initial)
    (checked : ws.config.check = .ok ws.config) (actions : List (Action Float)) :
    ((∀ done, done <+: actions → ((Session.start ws).run done).workspace.AllNumeric) ↔
      ws.AllNumeric ∧ ∀ done action, done ++ [action] <+: actions →
        ¬ ((Session.start ws).run done).Loses action) ∧
    ((∀ done, done <+: actions → ((Session.start ws).run done).workspace.AllNumeric) →
      ∀ done, done <+: actions → ∀ area ∈ ((Session.start ws).run done).workspace.areas,
        ∀ split ∈ area.split?, split.ratios.Pairwise (· ≤ ·)) ∧
    ∀ head children split, Split.assemble head children = .ok split →
      (Numeric split.ratios ↔ Numeric head.2.2) := by
  have sound : (Session.start ws).Sound Regime.any :=
    .start (Regime.any_unconditional.initial initial)
  have kept (numeric : ws.AllNumeric) (fine : ∀ done action, done ++ [action] <+: actions →
      ¬ ((Session.start ws).run done).Loses action) {done : List (Action Float)}
      (within : done <+: actions) : ((Session.start ws).run done).workspace.Orderly :=
    Session.orderly_run sound (orderly_of_initial initial checked numeric)
      fun before action onward => fine before action (onward.trans within)
  have whole (shown : ∀ done, done <+: actions →
      ((Session.start ws).run done).workspace.AllNumeric) : ws.AllNumeric ∧
      ∀ done action, done ++ [action] <+: actions →
        ¬ ((Session.start ws).run done).Loses action := by
    have numeric := shown [] List.nil_prefix
    exact ⟨numeric, Session.not_loses_of_numeric sound
      (orderly_of_initial initial checked numeric) shown⟩
  refine ⟨⟨whole, ?_⟩, ?_, fun head children split made => Split.assemble_numeric_iff made⟩
  · rintro ⟨numeric, fine⟩ done within
    exact (kept numeric fine within).allNumeric
  · intro shown done within
    obtain ⟨numeric, fine⟩ := whole shown
    exact (kept numeric fine within).sorted

/-- A panel at the right in a rectangle without a right edge; at the left two panels
side by side, and a third one below them. -/
def endless : List (Action Float) :=
  let dock (value : Int) : Dock Float := ⟨⟨value⟩, .null, none⟩
  [.placeFirst (dock 1),
    .splitBy .vertical ⟨1⟩ (dock 2) false none,
    .splitBy .horizontal ⟨1⟩ (dock 3) false none,
    .splitBy .vertical ⟨1⟩ (dock 4) false none]

theorem ratios_stay_numbers_unless_lost_of_endless :
    let ws : Workspace Float := .empty ⟨0.0, 0.0, Double.infinity false, 800.0⟩ .standard
    let built := (Session.start ws).run endless
    let closed := (Session.start ws).run (endless ++ [.removeDock ⟨3⟩])
    (ws.Initial ∧ ws.config.check = .ok ws.config) ∧
    (built.workspace.AllNumeric ∧ built.Loses (.removeDock ⟨3⟩)) ∧
    ¬ closed.workspace.AllNumeric := by
  intro ws built closed
  have initial : ws.Initial := .empty _ _
  have checked : ws.config.check = .ok ws.config :=
    (rfl : (Config.standard : Config Float).check = .ok .standard)
  have overflow : ((built.workspace.locate? ⟨3⟩).any fun entry =>
      decide (entry.2.docks.length = 1) &&
        entry.1.spliced?.any fun inner => decide inner.Overflows) = true := by
    decide +kernel
  have lost : built.Loses (.removeDock ⟨3⟩) := by
    obtain ⟨⟨path, panel⟩, found, both⟩ := Option.any_eq_true .. |>.mp overflow
    obtain ⟨last, spliced⟩ := Bool.and_eq_true .. |>.mp both
    obtain ⟨inner, same, overflows⟩ := Option.any_eq_true .. |>.mp spliced
    exact ⟨path, panel, found, of_decide_eq_true last, inner, same, of_decide_eq_true overflows⟩
  have exact := (ratios_stay_numbers_unless_lost ws initial checked
    (endless ++ [.removeDock ⟨3⟩])).1
  have numbers : ∀ done ∈ endless.inits,
      ∀ ratios ∈ ((Session.start ws).run done).workspace.ratioLists,
        ∀ ratio ∈ ratios, ratio.isNaN = false := by
    decide +kernel
  have before : ∀ done, done <+: endless → ((Session.start ws).run done).workspace.AllNumeric :=
    fun done within => forall_ratioLists_iff.mp (numbers done ((List.mem_inits _ _).mpr within))
  refine ⟨⟨initial, checked⟩, ⟨before endless (List.prefix_refl _), lost⟩, ?_⟩
  intro after
  refine (exact.mp ?_).2 endless (.removeDock ⟨3⟩) (List.prefix_refl _) lost
  intro done within
  rcases List.prefix_concat_iff.mp within with rfl | earlier
  · exact after
  · exact before done earlier

end Workspace

end DockLayout
