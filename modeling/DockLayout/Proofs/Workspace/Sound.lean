import DockLayout.Proofs.Tree.SoundEdits
import DockLayout.Proofs.Workspace.Steps
import DockLayout.Workspace.Action

/-!
# Sound workspaces and sessions

The tree of a sound workspace is sound and fills the workspace's rectangle. No
action that the regime admits leaves the sound sessions, so every run that
starts in one stays there.
-/

set_option autoImplicit false

namespace DockLayout

variable {K : Type} [Scalar K] {regime : Regime K}

namespace Workspace

structure Sound (regime : Regime K) (ws : Workspace K) : Prop where
  room : regime.Room ws.rect
  share : regime.Share ws.config.defaultSplitRatio
  tree : ∀ root ∈ ws.root,
    root.Sound regime ws.config ws.nextSplit ∧ root.rect = ws.rect

def besides (ws : Workspace K) (direction : Direction) (panel : Container K) (dock : Dock K)
    (before : Bool) (share : K) : Split K :=
  let added : Area K := .container (ws.newContainer dock .zero)
  let kept : Area K := .container panel
  if before then .pair direction (1 - share) ⟨ws.nextSplit⟩ panel.rect added kept
  else .pair direction share ⟨ws.nextSplit⟩ panel.rect kept added

theorem rect_besides (ws : Workspace K) (direction : Direction) (panel : Container K)
    (dock : Dock K) (before : Bool) (share : K) :
    (ws.besides direction panel dock before share).toArea.rect = panel.rect := by
  cases before <;> rfl

namespace Sound

variable {ws : Workspace K}

theorem filled (sound : ws.Sound regime) : ws.Filled :=
  fun root same => (sound.tree root same).1.filled

theorem empty {rect : Rect K} {config : Config K} (room : regime.Room rect)
    (share : regime.Share config.defaultSplitRatio) : (empty rect config).Sound regime where
  room := room
  share := share
  tree := fun _ none => nomatch none

theorem withRoot (sound : ws.Sound regime) {root : Area K}
    (tree : root.Sound regime ws.config ws.nextSplit ∧ root.rect = ws.rect) :
    Sound regime { ws with root := some root } where
  room := sound.room
  share := sound.share
  tree := by
    rintro _ ⟨⟩
    exact tree

theorem newSplitHandle (sound : ws.Sound regime) : ws.newSplitHandle.2.Sound regime where
  room := sound.room
  share := sound.share
  tree := by
    intro root same
    obtain ⟨tree, place⟩ := sound.tree root same
    exact ⟨tree.mono (Int.le_add_one (Int.le_refl _)), place⟩

theorem createDock (sound : ws.Sound regime) (pluginName : Json K)
    (pluginData : Option (List (Json K))) :
    (ws.createDock pluginName pluginData).2.Sound regime where
  room := sound.room
  share := sound.share
  tree := sound.tree

theorem newContainer (ws : Workspace K) (next : Int) (dock : Dock K) {rect : Rect K}
    (room : regime.Room rect) :
    (Area.container (ws.newContainer dock rect)).Sound regime ws.config next :=
  .container (Nat.succ_pos 0) rfl rfl room

theorem placeFirst (sound : ws.Sound regime) (dock : Dock K) :
    (ws.placeFirst dock).state.Sound regime := by
  unfold Workspace.placeFirst
  cases same : ws.root with
  | some root => exact sound
  | none => exact sound.withRoot ⟨newContainer ws ws.nextSplit dock sound.room, rfl⟩

theorem updateRect (sound : ws.Sound regime) {rect : Rect K} (room : regime.Room rect) :
    (ws.updateRect rect).state.Sound regime where
  room := room
  share := sound.share
  tree := by
    intro root placed
    obtain ⟨origin, same, rfl⟩ := Option.map_eq_some_iff.mp placed
    exact ⟨(sound.tree origin same).1.resize room, Area.rect_resize origin rect⟩

theorem changeRatio (sound : ws.Sound regime) (handle : SplitHandle) (index : Int)
    {delta : Point K} (shift : regime.Shift delta) :
    (ws.changeRatio handle index delta).state.Sound regime := by
  rcases ws.changeRatio_cases handle index delta with
    ⟨-, missed⟩ | ⟨split, -, -, refused⟩ |
    ⟨split, moved, root, path, -, valid, rfl, same, leads, changed⟩
  · rw [missed]
    exact sound
  · rw [refused]
    exact sound
  · rw [changed]
    obtain ⟨tree, place⟩ := sound.tree root same
    have layable := Split.Layable.of_sound (leads.sound_target tree)
    have inside : index.toNat + 1 < split.ratios.length := by omega
    have whole : (Split.relayout { split with
        ratios := split.ratios.set index.toNat (split.movedRatio index.toNat delta)
        }).toArea.Sound regime ws.config ws.nextSplit := by
      refine Split.Layable.relayout ⟨?_, layable.room, ?_, layable.known, layable.each⟩
      · exact regime.ratios_moved layable.ratios layable.room shift inside
      · rw [List.length_set]
        exact layable.count
    obtain ⟨put, same⟩ := leads.sound_put tree whole rfl
    exact sound.withRoot ⟨put, same.trans place⟩

theorem pair {config : Config K} {next : Int} (direction : Direction) (handle : SplitHandle)
    {share : K} {rect : Rect K} {first second : Area K} (room : regime.Room rect)
    (admitted : regime.Share share) (known : handle.value < next)
    (firstSound : first.Sound regime config next) (secondSound : second.Sound regime config next) :
    (Split.pair direction share handle rect first second).toArea.Sound regime config next := by
  refine Split.Layable.relayout ⟨regime.ratios_pair admitted, room, rfl, known, ?_⟩
  simp [firstSound, secondSound]

theorem besides (ws : Workspace K) (direction : Direction) {panel : Container K}
    {next : Int} (kept : (Area.container panel).Sound regime ws.config next) (dock : Dock K)
    (before : Bool) {share : K} (admitted : regime.Share share) (later : ws.nextSplit < next) :
    (ws.besides direction panel dock before share).toArea.Sound regime ws.config next := by
  have added := newContainer ws next dock regime.room_zero
  cases before with
  | true =>
    exact pair direction ⟨ws.nextSplit⟩ kept.room (regime.share_complement admitted) later added
      kept
  | false => exact pair direction ⟨ws.nextSplit⟩ kept.room admitted later kept added

theorem splitBy_eq (sound : ws.Sound regime) (direction : Direction) {target : DockHandle}
    {path : Path K} {panel : Container K} (found : ws.locate? target = some (path, panel))
    (dock : Dock K) (before : Bool) {ratio : Option K}
    (admitted : ∀ share ∈ ratio, regime.Share share) :
    ∃ root, ws.root = some root ∧ path.Leads root (.container panel) ∧
      (ws.splitBy direction target dock before ratio).state =
        { ws.newSplitHandle.2 with root := some (path.put (ws.besides direction panel dock before
            (ratio.getD ws.config.defaultSplitRatio)).toArea) } ∧
      (ws.besides direction panel dock before
        (ratio.getD ws.config.defaultSplitRatio)).toArea.Sound regime ws.config
          (ws.nextSplit + 1) := by
  obtain ⟨root, same, leads, -⟩ := locate?_eq_some found
  obtain ⟨tree, -⟩ := sound.newSplitHandle.tree root same
  have share : regime.Share (ratio.getD ws.config.defaultSplitRatio) := by
    cases ratio with
    | none => exact sound.share
    | some share => exact admitted share rfl
  have fresh := besides ws direction (leads.sound_target tree) dock before share
    (Int.lt_succ ws.nextSplit)
  refine ⟨root, same, leads, ?_, fresh⟩
  rw [← leads.settle_eq_put tree fresh (ws.rect_besides direction panel dock before _),
    Workspace.splitBy, found]
  rfl

theorem splitBy (sound : ws.Sound regime) (direction : Direction) (target : DockHandle)
    (dock : Dock K) (before : Bool) {ratio : Option K}
    (admitted : ∀ share ∈ ratio, regime.Share share) :
    (ws.splitBy direction target dock before ratio).state.Sound regime := by
  cases found : ws.locate? target with
  | none =>
    rw [Workspace.splitBy, found]
    exact sound
  | some entry =>
    obtain ⟨path, panel⟩ := entry
    obtain ⟨root, same, leads, state, fresh⟩ :=
      sound.splitBy_eq direction found dock before admitted
    obtain ⟨tree, place⟩ := sound.newSplitHandle.tree root same
    have whole := leads.sound_put tree fresh (ws.rect_besides direction panel dock before _)
    rw [state]
    exact sound.newSplitHandle.withRoot (whole.imp_right (·.trans place))

theorem putPanel (sound : ws.Sound regime) {handle : DockHandle} {path : Path K}
    {panel : Container K} (found : ws.locate? handle = some (path, panel))
    {docks : List (Dock K)} {active : Nat} (shown : active < docks.length) :
    Sound regime { ws with root := some (path.put (.container { panel with docks, active })) } := by
  obtain ⟨root, same, leads, -⟩ := locate?_eq_some found
  obtain ⟨tree, place⟩ := sound.tree root same
  cases leads.sound_target tree with
  | container _ header edge room =>
    have changed : (Area.container { panel with docks, active }).Sound
        regime ws.config ws.nextSplit := .container shown header edge room
    exact sound.withRoot ((leads.sound_put tree changed rfl).imp_right (·.trans place))

theorem addTab (sound : ws.Sound regime) (target : DockHandle) (dock : Dock K) :
    (ws.addTab target dock).state.Sound regime := by
  unfold Workspace.addTab
  cases found : ws.locate? target with
  | none => exact sound
  | some entry => exact sound.putPanel found (by simp)

theorem setActiveDock (sound : ws.Sound regime) (handle : DockHandle) :
    (ws.setActiveDock handle).state.Sound regime := by
  unfold Workspace.setActiveDock
  cases found : ws.locate? handle with
  | none => exact sound
  | some entry =>
    obtain ⟨path, panel⟩ := entry
    obtain ⟨root, -, -, -, -, holds⟩ := locate?_eq_some found
    obtain ⟨index, dock, present, -⟩ := Container.indexOf?_of_holds holds
    have inside := (List.getElem?_eq_some_iff.mp present).1
    simp only [Container.setActive, index]
    exact sound.putPanel found inside

theorem dropDock (sound : ws.Sound regime) (dock : Dock K) (target : DropTarget) :
    (ws.dropDock dock target).state.Sound regime := by
  unfold Workspace.dropDock
  cases target.zone.direction? with
  | none => exact sound.addTab target.handle dock
  | some direction =>
    apply sound.splitBy direction target.handle dock
    rintro _ ⟨⟩

theorem removeDock (sound : ws.Sound regime) (handle : DockHandle) :
    (ws.removeDock handle).state.Sound regime := by
  cases found : ws.locate? handle with
  | none =>
    simp only [Workspace.removeDock, found]
    exact sound
  | some entry =>
    obtain ⟨path, panel⟩ := entry
    obtain ⟨root, same, leads, -⟩ := locate?_eq_some found
    obtain ⟨tree, place⟩ := sound.tree root same
    obtain ⟨emptied, kept⟩ := removeDock_of_locate? found
    by_cases last : panel.docks.length = 1
    · have left := leads.sound_vacate tree
      rw [place] at left
      rw [emptied last]
      exact ⟨sound.room, sound.share, Remains.sound_root left sound.room⟩
    · obtain ⟨docks, active, shown, state⟩ := kept last
      rw [state]
      apply sound.putPanel found
      cases leads.sound_target tree with
      | container first header edge room => exact shown first

theorem moveDock (sound : ws.Sound regime) (handle : DockHandle) (target : DropTarget) :
    (ws.moveDock handle target).state.Sound regime := by
  rcases ws.moveDock_cases handle target with ⟨-, nothing⟩ | ⟨-, -, moves⟩
  · rw [nothing]
    exact sound
  · rw [moves]
    refine Outcome.andThen_holds (sound.removeDock handle) fun rest removed reached => ?_
    cases removed with
    | none => exact reached
    | some dock => exact reached.dropDock dock target

end Sound

end Workspace

/-! ## Sessions -/

def Action.Admitted (regime : Regime K) : Action K → Prop
  | .updateRect rect => regime.Room rect
  | .changeRatio _ _ delta => regime.Shift delta
  | .splitBy _ _ _ _ ratio => ∀ share ∈ ratio, regime.Share share
  | .press p | .motion p | .release p => regime.Pointer p
  | _ => True

namespace Session

/-- Besides a sound workspace this takes that the gesture in progress, if there is one, is of
the kind that fits its target. -/
structure Sound (regime : Regime K) (s : Session K) : Prop where
  workspace : s.workspace.Sound regime
  pointer : ∀ gesture ∈ s.gesture, regime.Pointer gesture.last
  kind : ∀ gesture ∈ s.gesture, gesture.kind = gesture.target.gestureKind

namespace Sound

variable {s : Session K}

theorem start {ws : Workspace K} (sound : ws.Sound regime) : (start ws).Sound regime where
  workspace := sound
  pointer := fun _ none => nomatch none
  kind := fun _ none => nomatch none

theorem withWorkspace (sound : s.Sound regime) {ws : Workspace K} (edited : ws.Sound regime) :
    Sound regime { s with workspace := ws } where
  workspace := edited
  pointer := sound.pointer
  kind := sound.kind

theorem idle (sound : s.Sound regime) : Sound regime { s with gesture := none } where
  workspace := sound.workspace
  pointer := fun _ none => nomatch none
  kind := fun _ none => nomatch none

theorem engaged {ws : Workspace K} {gesture : Gesture K} (sound : ws.Sound regime)
    (pointer : regime.Pointer gesture.last) (kind : gesture.kind = gesture.target.gestureKind) :
    Sound regime { workspace := ws, gesture := some gesture } where
  workspace := sound
  pointer := by
    rintro _ ⟨⟩
    exact pointer
  kind := by
    rintro _ ⟨⟩
    exact kind

theorem press (sound : s.Sound regime) {p : Point K} (pointer : regime.Pointer p) :
    (s.press p).state.Sound regime := by
  rcases s.press_cases p with ⟨-, ignored⟩ | ⟨target, -, -, started⟩
  · rw [ignored]
    exact sound
  · rw [started]
    exact engaged sound.workspace pointer rfl

theorem motion (sound : s.Sound regime) {p : Point K} (pointer : regime.Pointer p) :
    (s.motion p).state.Sound regime := by
  rcases s.motion_cases p with ⟨-, idle⟩ | ⟨gesture, held, ⟨-, still⟩ |
    ⟨handle, index, -, ⟨split, -, -, refused⟩ | ⟨ws, answer, events, changed, moved⟩⟩⟩
  · rw [idle]
    exact sound
  · rw [still]
    exact engaged sound.workspace pointer (sound.kind gesture held)
  · rw [refused]
    exact sound
  · have shift := regime.shift_of_pointers (sound.pointer gesture held) pointer
    have edited := sound.workspace.changeRatio handle index shift
    rw [changed] at edited
    rw [moved]
    exact engaged edited pointer (sound.kind gesture held)

theorem drop (sound : s.Sound regime) (gesture : Gesture K) (p : Point K) :
    (s.drop gesture p).state.Sound regime := by
  rcases s.drop_cases gesture p with
    ⟨-, missed⟩ | ⟨error, -, refused⟩ | ⟨handle, place, -, -, moved⟩
  · rw [missed]
    exact sound
  · rw [refused]
    exact sound
  · rw [moved]
    exact sound.withWorkspace (sound.workspace.moveDock handle place)

theorem release (sound : s.Sound regime) {p : Point K} (pointer : regime.Pointer p) :
    (s.release p).state.Sound regime := by
  cases held : s.gesture with
  | none =>
    rw [release_of_idle held]
    exact sound
  | some gesture =>
    rw [release_of_held held]
    refine Outcome.andThen_holds (P := Session.Sound regime) (sound.motion pointer)
      fun moved _ reached => ?_
    exact Outcome.andThen_holds (P := Session.Sound regime) (reached.idle.drop gesture p)
      fun dropped _ finished => finished

theorem cancel (sound : s.Sound regime) : s.cancel.state.Sound regime := by
  unfold Session.cancel
  cases s.gesture with
  | none => exact sound
  | some gesture => exact sound.idle

theorem perform (sound : s.Sound regime) {action : Action K} (admitted : action.Admitted regime) :
    (s.perform action).state.Sound regime := by
  cases action with
  | createDock pluginName pluginData =>
    exact sound.withWorkspace (sound.workspace.createDock pluginName pluginData)
  | newSplitHandle => exact sound.withWorkspace sound.workspace.newSplitHandle
  | placeFirst dock => exact sound.withWorkspace (sound.workspace.placeFirst dock)
  | updateRect rect => exact sound.withWorkspace (sound.workspace.updateRect admitted)
  | changeRatio handle index delta =>
    exact sound.withWorkspace (sound.workspace.changeRatio handle index admitted)
  | splitBy direction target dock before ratio =>
    exact sound.withWorkspace (sound.workspace.splitBy direction target dock before admitted)
  | addTab target dock => exact sound.withWorkspace (sound.workspace.addTab target dock)
  | dropDock dock target => exact sound.withWorkspace (sound.workspace.dropDock dock target)
  | removeDock handle => exact sound.withWorkspace (sound.workspace.removeDock handle)
  | moveDock handle target => exact sound.withWorkspace (sound.workspace.moveDock handle target)
  | setActiveDock handle => exact sound.withWorkspace (sound.workspace.setActiveDock handle)
  | press p => exact sound.press admitted
  | motion p => exact sound.motion admitted
  | release p => exact sound.release admitted
  | cancel => exact sound.cancel

theorem run (sound : s.Sound regime) {actions : List (Action K)}
    (admitted : ∀ action ∈ actions, action.Admitted regime) :
    (s.run actions).Sound regime := by
  induction actions generalizing s with
  | nil => exact sound
  | cons action rest ih =>
    have stepped := sound.perform (admitted action List.mem_cons_self)
    exact ih stepped fun later listed => admitted later (List.mem_cons_of_mem action listed)

end Sound

end Session

end DockLayout
