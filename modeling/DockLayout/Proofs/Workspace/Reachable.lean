import DockLayout.Proofs.Tree.Loaded
import DockLayout.Proofs.Workspace.Sound

/-!
# Reachable sessions

A session begins idle on an empty workspace or on one that was read from a
layout file, and goes on with any actions, refused ones included. Whatever the
scalars are, its workspace is sound.
-/

set_option autoImplicit false

namespace DockLayout

variable {K : Type} [Scalar K]

namespace Workspace

theorem lt_nextAfter {values : List Int} {value : Int} (listed : value ∈ values) :
    value < nextAfter values := by
  have bounded : ∀ (rest : List Int) (greatest : Int),
      greatest ≤ rest.foldl max greatest ∧ ∀ other ∈ rest, other ≤ rest.foldl max greatest := by
    intro rest
    induction rest with
    | nil => simp
    | cons first others ih =>
      intro greatest
      obtain ⟨reached, below⟩ := ih (max greatest first)
      refine ⟨Int.le_trans (Int.le_max_left greatest first) reached, ?_⟩
      intro other member
      rcases List.mem_cons.mp member with rfl | later
      · exact Int.le_trans (Int.le_max_right greatest other) reached
      · exact below other later
  exact Int.lt_add_one_of_le ((bounded values 0).2 value listed)

theorem around_sound {regime : Regime K} (reading : regime.AdmitsReading) {config : Config K}
    (share : regime.Share config.defaultSplitRatio) {root : Option (Area K)}
    (assembled : ∀ area ∈ root, area.Assembled) :
    (around config root).Sound regime where
  room := regime.room_zero
  share := share
  tree := by
    intro area same
    obtain ⟨origin, present, rfl⟩ := Option.map_eq_some_iff.mp same
    have known : ∀ handle ∈ origin.splitHandles,
        handle.value < (around config root).nextSplit := by
      intro handle listed
      have areas : ({ empty .zero config with
          root := root.map (Area.configure config) } : Workspace K).areas =
            (origin.configure config).preorder := by
        simp [Workspace.areas, present]
      refine lt_nextAfter (List.mem_map_of_mem ?_)
      rw [areas]
      change handle ∈ (origin.configure config).splitHandles
      rw [Area.splitHandles_configure]
      exact listed
    refine ⟨((assembled origin present).sound reading known).configure config, ?_⟩
    rw [Area.rect_configure, (assembled origin present).rect]
    rfl

theorem root_assembled {value : Json K} {root : Option (Area K)}
    (loaded : (rootData value).bind decodeRoot = .ok root) : ∀ area ∈ root, area.Assembled := by
  intro area same
  obtain ⟨data, -, decoded⟩ := Success.bind_eq_ok.mp loaded
  cases data with
  | none => cases decoded; cases same
  | some data =>
    obtain ⟨origin, found, rfl⟩ := Success.map_eq_ok.mp decoded
    cases same
    exact Area.decode_assembled data area found

theorem decode_sound {regime : Regime K} (reading : regime.AdmitsReading) {value : Json K}
    {rect : Option (Rect K)} (room : ∀ given ∈ rect, regime.Room given) {config : Config K}
    (share : regime.Share config.defaultSplitRatio) {ws : Workspace K}
    (read : (decode value rect config).result = .ok ws) : ws.Sound regime := by
  rw [decode] at read
  cases loaded : (rootData value).bind decodeRoot with
  | error error => simp [loaded] at read
  | ok root =>
    have sound := around_sound reading share (root_assembled loaded)
    cases rect with
    | none =>
      simp only [loaded, Except.ok.injEq] at read
      exact read ▸ sound
    | some rect =>
      simp only [loaded, Except.ok.injEq] at read
      exact read ▸ sound.updateRect (room rect rfl)

inductive Initial : Workspace K → Prop
  | empty (rect : Rect K) (config : Config K) : Initial (empty rect config)
  | loaded {value : Json K} {rect : Option (Rect K)} {config : Config K} {ws : Workspace K}
      (read : (decode value rect config).result = .ok ws) : Initial ws

end Workspace

/-- The regime asks nothing of the arguments of an action, and nothing of a layout
that is read. -/
structure Regime.Unconditional (regime : Regime K) : Prop where
  room : ∀ rect, regime.Room rect
  share : ∀ ratio, regime.Share ratio
  shift : ∀ delta, regime.Shift delta
  pointer : ∀ p, regime.Pointer p
  reading : regime.AdmitsReading

namespace Regime.Unconditional

variable {regime : Regime K}

theorem admitted (free : regime.Unconditional) (action : Action K) :
    action.Admitted regime := by
  cases action <;> simp [Action.Admitted, free.room, free.share, free.shift, free.pointer]

theorem initial (free : regime.Unconditional) {ws : Workspace K} (initial : ws.Initial) :
    ws.Sound regime := by
  cases initial with
  | empty rect config => exact .empty (free.room rect) (free.share _)
  | loaded read =>
    exact Workspace.decode_sound free.reading (fun rect _ => free.room rect) (free.share _) read

end Regime.Unconditional

theorem Regime.any_unconditional : (Regime.any : Regime K).Unconditional where
  room := fun _ => trivial
  share := fun _ => trivial
  shift := fun _ => trivial
  pointer := fun _ => trivial
  reading := any_admitsReading

namespace Session

def Reachable (s : Session K) : Prop :=
  ∃ (ws : Workspace K) (actions : List (Action K)), ws.Initial ∧ s = (start ws).run actions

theorem Reachable.sound_of {regime : Regime K} (free : regime.Unconditional) {s : Session K}
    (reachable : s.Reachable) : s.Sound regime := by
  obtain ⟨ws, actions, initial, rfl⟩ := reachable
  exact (Sound.start (free.initial initial)).run fun action _ => free.admitted action

theorem Reachable.sound {s : Session K} (reachable : s.Reachable) : s.Sound Regime.any :=
  reachable.sound_of Regime.any_unconditional

end Session

namespace Workspace

def Reachable (ws : Workspace K) : Prop := ∃ s : Session K, s.Reachable ∧ s.workspace = ws

theorem Reachable.sound_of {regime : Regime K} (free : regime.Unconditional)
    {ws : Workspace K} (reachable : ws.Reachable) : ws.Sound regime := by
  obtain ⟨s, reached, rfl⟩ := reachable
  exact (reached.sound_of free).workspace

theorem Reachable.sound {ws : Workspace K} (reachable : ws.Reachable) : ws.Sound Regime.any :=
  reachable.sound_of Regime.any_unconditional

end Workspace

end DockLayout
