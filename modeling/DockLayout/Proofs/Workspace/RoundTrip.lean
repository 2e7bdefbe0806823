import DockLayout.Proofs.Binary64.Double
import DockLayout.Proofs.Tree.RoundTrip
import DockLayout.Proofs.Workspace.Sound

/-!
# Writing a workspace and reading it back

A session on doubles that starts empty keeps its ratios ordered as long as
extents stay modest. So the layout can be read back at any time, and what comes
back differs only in the ratios that removals have pushed out of their bounds.
-/

set_option autoImplicit false

namespace DockLayout

open Rounding

variable {K : Type} [Scalar K]

namespace Workspace

theorem rootData_encode (ws : Workspace K) :
    rootData ws.encode = .ok (ws.root.map Area.encode) := by
  cases same : ws.root with
  | none =>
    rw [encode, same]
    rfl
  | some root =>
    rw [encode, same]
    cases root with
    | container panel => rfl
    | split frame children => rfl

theorem root_around (config : Config K) (root : Option (Area K)) :
    (around config root).root = root.map (Area.configure config) := rfl

variable [Rounding K]

theorem Sound.decode_encode {ws : Workspace K} (sound : ws.Sound Regime.ordered) :
    ∃ loaded, (decode ws.encode (some ws.rect) ws.config).result = .ok loaded ∧
      loaded.config = ws.config ∧ loaded.rect = ws.rect ∧
      loaded.root = ws.root.map fun root => root.bounded.resize ws.rect := by
  have read : (rootData ws.encode).bind decodeRoot = .ok (ws.root.map fun root =>
      (root.bounded.configure .standard).resize .zero) := by
    rw [rootData_encode]
    change decodeRoot (ws.root.map Area.encode) = _
    cases same : ws.root with
    | none => rfl
    | some root =>
      change (Area.decode root.encode).map some = _
      rw [(sound.tree root same).1.decode_encode]
      rfl
  refine ⟨((around ws.config (ws.root.map fun root =>
    (root.bounded.configure .standard).resize .zero)).updateRect ws.rect).state,
    by rw [decode, read], rfl, rfl, ?_⟩
  change ((around ws.config _).root.map fun root => root.resize ws.rect) = _
  rw [root_around, Option.map_map, Option.map_map]
  cases same : ws.root with
  | none => rfl
  | some root =>
    have settled := (sound.tree root same).1.configure_eq
    have kept : root.bounded.configure ws.config = root.bounded := by
      rw [← Area.bounded_configure, settled]
    change some ((((root.bounded.configure .standard).resize .zero).configure ws.config).resize
      ws.rect) = some (root.bounded.resize ws.rect)
    rw [Area.configure_resize, Area.configure_configure, Area.resize_resize, kept]

theorem Sound.root_bounded_iff {ws : Workspace K} (sound : ws.Sound Regime.ordered) :
    (ws.root.map fun root => root.bounded.resize ws.rect) = ws.root ↔
      ∀ area ∈ ws.areas, area.WithinBounds := by
  cases same : ws.root with
  | none =>
    rw [areas, same]
    exact iff_of_true rfl (List.forall_mem_nil _)
  | some root =>
    obtain ⟨tree, place⟩ := sound.tree root same
    rw [areas, same, Option.map_some, Option.some.injEq, ← place, tree.bounded_eq_iff,
      ← Area.visit_eq]

/-! ## On doubles -/

/-- Left by a run from an empty workspace whose rectangles were modest and whose
other arguments were numbers. -/
def Grown (ws : Workspace Float) : Prop :=
  ∃ (rect : Rect Float) (config : Config Float) (actions : List (Action Float)),
    config.check = .ok config ∧ rect.IsModest ∧
    (∀ action ∈ actions, action.Admitted Regime.ordered) ∧
    ws = ((Session.start (.empty rect config)).run actions).workspace

theorem isNumber_defaultSplitRatio {config : Config Float}
    (checked : config.check = .ok config) : IsNumber config.defaultSplitRatio := by
  rw [Config.check] at checked
  split at checked
  · cases checked
  · split at checked
    · cases checked
    · split at checked
      · cases checked
      · rename_i admissible
        exact Binary64.isNaN_of_le (not_not.mp admissible).1

theorem Grown.sound {ws : Workspace Float} (grown : ws.Grown) : ws.Sound Regime.ordered := by
  obtain ⟨rect, config, actions, checked, modest, admitted, rfl⟩ := grown
  have empty : (empty rect config).Sound Regime.ordered :=
    .empty modest (isNumber_defaultSplitRatio checked)
  exact ((Session.Sound.start empty).run admitted).workspace

/-- The layout can be read back, with the ratios brought within bounds, and it
is the same layout exactly when they were within bounds before. -/
theorem reload_bounds_ratios (ws : Workspace Float) (grown : ws.Grown) :
    ∃ loaded, (decode ws.encode (some ws.rect) ws.config).result = .ok loaded ∧
      loaded.config = ws.config ∧ loaded.rect = ws.rect ∧ loaded.groups = ws.groups ∧
      loaded.root = (ws.root.map fun root => root.bounded.resize ws.rect) ∧
      (loaded.root = ws.root ↔ ∀ area ∈ ws.areas, area.WithinBounds) := by
  obtain ⟨loaded, read, config, rect, root⟩ := grown.sound.decode_encode
  refine ⟨loaded, read, config, rect, ?_, root, ?_⟩
  · rw [groups_eq, groups_eq, root]
    cases ws.root with
    | none => rfl
    | some root => exact (Area.groups_resize _ _).trans (Area.groups_bounded root)
  · rw [root]
    exact grown.sound.root_bounded_iff

/-- Three panels, the first of which is narrower than any boundary could be set:
closing the panel below it has merged the two splits around it. -/
def thin : Workspace Float :=
  let dock (value : Int) : Dock Float := ⟨⟨value⟩, .null, none⟩
  ((Session.start (.empty ⟨0.0, 0.0, 1000.0, 800.0⟩ .standard)).run [
    .placeFirst (dock 1),
    .splitBy .vertical ⟨1⟩ (dock 2) false none,
    .splitBy .horizontal ⟨1⟩ (dock 3) false none,
    .splitBy .vertical ⟨1⟩ (dock 4) false (some 0.0),
    .removeDock ⟨3⟩]).workspace

theorem thin_grown : thin.Grown := by
  have modest : Binary64.Modest 1000.0 ∧ Binary64.Modest 800.0 := by decide +kernel
  refine ⟨_, _, _, rfl, ?_, ?_, rfl⟩
  · intro direction
    cases direction
    · exact modest.2
    · exact modest.1
  · simp only [List.forall_mem_cons]
    refine ⟨trivial, ?_, ?_, ?_, trivial, fun _ none => nomatch none⟩
    · exact fun _ none => nomatch none
    · exact fun _ none => nomatch none
    · rintro share ⟨⟩
      exact (rfl : (0.0 : Float).isNaN = false)

theorem reload_bounds_ratios_of_thin :
    thin.Grown ∧
    ∃ loaded, (decode thin.encode (some thin.rect) thin.config).result = .ok loaded ∧
      loaded.groups = thin.groups ∧
      (loaded.root.bind Area.split?).map (·.ratios) = some [0.01, 0.5, 1.0] := by
  obtain ⟨loaded, read, -, -, groups, root, -⟩ := reload_bounds_ratios thin thin_grown
  refine ⟨thin_grown, loaded, read, groups, ?_⟩
  rw [root]
  decide +kernel

def inserting (keeper fresh : Int) (share : Float) : List (Action Float) :=
  let dock (value : Int) : Dock Float := ⟨⟨value⟩, .null, none⟩
  [.splitBy .horizontal ⟨keeper⟩ (dock fresh) false none,
    .splitBy .vertical ⟨keeper⟩ (dock (fresh + 1)) false (some share),
    .removeDock ⟨fresh⟩]

def narrowing (keeper : Int) : List (Action Float) :=
  inserting keeper (keeper + 1) 0.99 ++ [.removeDock ⟨keeper - 2⟩]

/-- Six panels in a workspace as wide as the greatest double. When the last one
was closed, the widths of the others added up to an infinity. -/
def flooded : Workspace Float :=
  let dock (value : Int) : Dock Float := ⟨⟨value⟩, .null, none⟩
  ((Session.start (.empty ⟨0.0, 0.0, 1.7976931348623157e308, 100.0⟩ .standard)).run (List.flatten [
    [.placeFirst (dock 1), .splitBy .vertical ⟨1⟩ (dock 2) false (some 0.99)],
    inserting 2 3 0.99,
    [.removeDock ⟨1⟩],
    [4, 6, 8, 10, 12, 14, 16].flatMap narrowing,
    [.splitBy .horizontal ⟨16⟩ (dock 19) false none,
      .splitBy .vertical ⟨16⟩ (dock 20) false (some 0.99)],
    inserting 20 21 0.99,
    [.removeDock ⟨16⟩],
    [22, 24, 26, 28, 30, 32, 34].flatMap narrowing,
    inserting 34 37 0.24968712732908352,
    inserting 38 39 0.4306935252544586,
    inserting 40 41 0.32138333865673885,
    inserting 42 43 0.23740416543598622,
    [.removeDock ⟨19⟩,
      .changeRatio ⟨1⟩ 5 ⟨1.2583851944036209e308, 0.0⟩,
      .changeRatio ⟨1⟩ 3 ⟨-1.4381545078898526e308, 0.0⟩,
      .removeDock ⟨44⟩]])).workspace

/-- Neither layout comes back as it was written, and the second not at all. -/
theorem reload_loses_thin_and_flooded :
    (¬ ∃ loaded, (decode thin.encode (some thin.rect) thin.config).result = .ok loaded ∧
      loaded.root = thin.root) ∧
    ¬ ∃ loaded, (decode flooded.encode (some flooded.rect) flooded.config).result =
      .ok loaded := by
  have saved : (thin.root.bind Area.split?).map (·.ratios) = some [0.005, 0.5, 1.0] := by
    decide +kernel
  have reloaded : (decode thin.encode (some thin.rect) thin.config).result.toOption.map
      (fun loaded => (loaded.root.bind Area.split?).map (·.ratios)) =
        some (some [0.01, 0.5, 1.0]) := by
    decide +kernel
  have moved : (some [0.01, 0.5, 1.0] : Option (List Float)) ≠ some [0.005, 0.5, 1.0] := by
    decide +kernel
  have refused : (decode flooded.encode (some flooded.rect) flooded.config).result.isOk =
      false := by
    decide +kernel
  constructor
  · rintro ⟨loaded, read, same⟩
    rw [read] at reloaded
    have kept : (loaded.root.bind Area.split?).map (·.ratios) = some [0.01, 0.5, 1.0] :=
      Option.some.inj reloaded
    rw [same, saved] at kept
    exact moved kept.symm
  · rintro ⟨loaded, read⟩
    rw [read] at refused
    cases refused

end Workspace

end DockLayout
