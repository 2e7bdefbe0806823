import DockLayout.Proofs.Numbers.Bounded
import DockLayout.Proofs.Numbers.Splice
import DockLayout.Proofs.Tree.Loaded

/-!
# Writing an area and reading it back

Reading what was written of a sound area with ordered ratios succeeds. It gives
back handles, directions, docks and active tabs as they were and brings the
ratios within bounds. Rectangles and settings are not written; both come from
the workspace that reads.
-/

set_option autoImplicit false

namespace DockLayout

open Rounding

variable {K : Type}

/-! ## Panels -/

theorem Json.decodeEach_map {α β : Type} {decode : Json K → Except (LayoutError K) β}
    {encode : α → Json K} (result : α → β) {items : List α}
    (each : ∀ item ∈ items, decode (encode item) = .ok (result item)) :
    Json.decodeEach decode (items.map encode) = .ok (items.map result) := by
  induction items with
  | nil => rfl
  | cons item rest ih =>
    have here := each item List.mem_cons_self
    have later := ih fun other listed => each other (List.mem_cons_of_mem item listed)
    rw [List.map_cons, Json.decodeEach, here, later]
    rfl

theorem Direction.decode_name (direction : Direction) :
    Direction.decode (.str direction.name : Json K) = .ok direction := by
  cases direction <;> rfl

theorem Dock.decode_encode (dock : Dock K) : Dock.decode dock.encode = .ok dock := by
  obtain ⟨handle, pluginName, pluginData⟩ := dock
  cases pluginData <;> rfl

variable [Scalar K]

theorem Container.decode_encode {panel : Container K} (shown : panel.active < panel.docks.length) :
    Container.decode panel.encode = .ok { panel with
      rect := .zero
      headerHeight := standardHeaderHeight K, dropEdgeFraction := standardEdgeFraction K } := by
  have docks : Json.decodeEach Dock.decode (panel.docks.map Dock.encode) = .ok panel.docks := by
    rw [Json.decodeEach_map id fun dock _ => dock.decode_encode, List.map_id]
  have fields : Container.decodeFields panel.encode = .ok (panel.docks, (panel.active : Int)) := by
    change (Json.decodeEach Dock.decode (panel.docks.map Dock.encode)).bind _ = _
    rw [docks]
    rfl
  have some : panel.docks.isEmpty = false := by
    rw [List.isEmpty_eq_false_iff]
    rintro none
    rw [none] at shown
    exact Nat.not_lt_zero _ shown
  have valid : 0 ≤ (panel.active : Int) ∧ (panel.active : Int) < panel.docks.length := by omega
  rw [Container.decode, fields]
  change (if panel.docks.isEmpty then _ else if _ then _ else _) = _
  rw [some, if_neg Bool.false_ne_true, if_pos valid, Int.toNat_natCast]

/-! ## Splits -/

theorem Split.decodeHead_encode (frame : Partition K) (children : List (Area K)) :
    Split.decodeHead (Area.split frame children).encode =
      .ok (frame.handle, frame.direction, frame.ratios) := by
  have ratios : Json.decodeEach (fun ratio => LayoutError.ofField ratio.toReal)
      (frame.ratios.map Json.real) = .ok (frame.ratios.map id) :=
    Json.decodeEach_map id fun ratio _ => rfl
  rw [List.map_id] at ratios
  unfold Split.decodeHead
  change (Direction.decode (.str frame.direction.name : Json K)).bind
    (fun direction => (Json.decodeEach (fun ratio => LayoutError.ofField ratio.toReal)
      (frame.ratios.map Json.real)).bind _) = _
  rw [Direction.decode_name, ratios]
  rfl

namespace Area

mutual

def bounded : Area K → Area K
  | .container panel => .container panel
  | .split frame children =>
      .split { frame with ratios := Split.boundedRatios frame.ratios } (boundedEach children)

def boundedEach : List (Area K) → List (Area K)
  | [] => []
  | area :: rest => area.bounded :: boundedEach rest

end

theorem boundedEach_eq (areas : List (Area K)) : boundedEach areas = areas.map bounded := by
  induction areas with
  | nil => rfl
  | cons area rest ih => rw [boundedEach, ih, List.map_cons]

@[simp] theorem groups_bounded (area : Area K) : area.bounded.groups = area.groups := by
  induction area with
  | container panel => rfl
  | split frame children ih =>
    rw [bounded, groups_split, groups_split, boundedEach_eq, List.flatMap_map]
    exact List.flatMap_congr ih

/-! ## Placing what was read -/

theorem resizeEach_map_resize {areas : List (Area K)} {rects : List (Rect K)}
    (count : areas.length = rects.length) (before : Rect K) :
    resizeEach (areas.map (·.resize before)) rects = resizeEach areas rects := by
  induction areas generalizing rects with
  | nil => rfl
  | cons area rest ih =>
    cases rects with
    | nil => cases count
    | cons first others =>
      rw [List.map_cons, resizeEach, resizeEach, resize_resize, ih (Nat.succ.inj count)]

/-! ## Reading what was written -/

variable {regime : Regime K} {config : Config K} {next : Int}

theorem decode_split (frame : Partition K) (children : List (Area K)) :
    decode (split frame children).encode =
      ((Split.decodeHead (split frame children).encode).mapError LayoutError.inSplit).bind
        fun head => ((Json.decodeEach decode (children.map encode)).mapError
          LayoutError.inSplit).bind
        fun children => (Split.assemble head children).map Split.toArea := by
  rw [← decodeItems_eq, ← encodeEach_eq]
  rfl

variable [Rounding K]

theorem make_ordered {children : List (Area K)} {ratios : List K} (direction : Direction)
    (handle : SplitHandle) (rect : Rect K) (count : children.length = ratios.length)
    (ordered : Ordered ratios) :
    Split.make children ratios direction handle rect =
      .ok (Split.relayout ⟨⟨handle, direction, ratios, rect⟩, children⟩) := by
  have filled : children ≠ [] := by
    rintro rfl
    exact ordered.ne_nil (List.length_eq_zero_iff.mp count.symm)
  have one : IsNumber (1 : K) := isNumber_of_isFinite isFinite_one
  exact Split.make_of_checked direction handle rect filled count ordered.last
    ((beq_iff one one).mpr rfl) ordered.hasDescent

theorem Sound.decode_encode {area : Area K} (sound : area.Sound Regime.ordered config next) :
    decode area.encode = .ok ((area.bounded.configure .standard).resize .zero) := by
  induction sound with
  | @container panel shown header edge room =>
    have read := Container.decode_encode shown
    change (Container.decode panel.encode).map Area.container = _
    rw [read]
    rfl
  | @split frame children ratios room placed known each ih =>
    have some : children.length = frame.ratios.length := by
      have lengths := congrArg List.length placed
      rwa [List.length_map, Rect.length_cut] at lengths
    let loaded (child : Area K) : Area K := (child.bounded.configure .standard).resize .zero
    have head := Split.decodeHead_encode frame children
    have below : Json.decodeEach decode (children.map encode) = .ok (children.map loaded) :=
      Json.decodeEach_map loaded ih
    have count : (children.map loaded).length = (Split.boundedRatios frame.ratios).length := by
      rw [List.length_map, Split.length_boundedRatios, some]
    have made := make_ordered frame.direction frame.handle .zero count
      (Ordered.bounded ratios)
    rw [decode_split, head, below]
    change (Split.make (children.map loaded) (Split.boundedRatios frame.ratios) frame.direction
      frame.handle .zero).map Split.toArea = _
    rw [made, bounded, Area.configure, Area.resize, boundedEach_eq, configureEach_eq]
    have written : children.map loaded =
        ((children.map bounded).map (Area.configure .standard)).map (·.resize .zero) := by
      rw [List.map_map, List.map_map]
      rfl
    have count : ((children.map bounded).map (Area.configure .standard)).length =
        (Rect.zero.cut frame.direction (Split.boundedRatios frame.ratios)).length := by
      rw [List.length_map, List.length_map, Rect.length_cut, Split.length_boundedRatios, some]
    have again := resizeEach_map_resize count .zero
    rw [← written] at again
    exact congrArg (fun parts => Except.ok (Area.split ⟨frame.handle, frame.direction,
      Split.boundedRatios frame.ratios, .zero⟩ parts)) again

/-! ## In the place it was written from -/

omit [Rounding K] in
theorem bounded_configure (config : Config K) (area : Area K) :
    (area.configure config).bounded = area.bounded.configure config := by
  induction area with
  | container panel => rfl
  | split frame children ih =>
    simp only [configure, bounded, configureEach_eq, boundedEach_eq, List.map_map]
    exact congrArg _ (List.map_congr_left ih)

omit [Rounding K] in
theorem configure_resize (config : Config K) (area : Area K) (rect : Rect K) :
    (area.resize rect).configure config = (area.configure config).resize rect := by
  induction area generalizing rect with
  | container panel => simp only [configure, resize]
  | split frame children ih =>
    simp only [configure, resize, configureEach_eq]
    generalize rect.cut frame.direction frame.ratios = rects
    congr 1
    induction children generalizing rects with
    | nil => rfl
    | cons child rest ihRest =>
      cases rects with
      | nil => rfl
      | cons first others =>
        have here := ih child List.mem_cons_self first
        have later := ihRest (fun area listed => ih area (List.mem_cons_of_mem child listed)) others
        rw [List.map_cons, resizeEach, resizeEach, List.map_cons, here, later]

omit [Scalar K] [Rounding K] in
theorem configure_configure (first second : Config K) (area : Area K) :
    (area.configure first).configure second = area.configure second := by
  induction area with
  | container panel => rfl
  | split frame children ih =>
    simp only [configure, configureEach_eq, List.map_map]
    exact congrArg _ (List.map_congr_left ih)

omit [Rounding K] in
theorem Sound.configure_eq {area : Area K} (sound : area.Sound regime config next) :
    area.configure config = area := by
  induction sound with
  | container shown header edge room =>
    rw [Area.configure, ← header, ← edge]
  | split ratios room placed known each ih =>
    rw [Area.configure, configureEach_eq]
    exact congrArg _ ((List.map_congr_left ih).trans (List.map_id _))

def WithinBounds (area : Area K) : Prop :=
  ∀ split ∈ area.split?, Split.WithinBounds split.ratios

/-- Writing and reading leaves an area as it was exactly when all ratios in it
were within the bounds. -/
theorem Sound.bounded_eq_iff {area : Area K} (sound : area.Sound Regime.ordered config next) :
    area.bounded.resize area.rect = area ↔ ∀ inner ∈ area.preorder, inner.WithinBounds := by
  induction sound with
  | container shown header edge room =>
    apply iff_of_true (by rw [bounded, rect, Area.resize])
    intro inner listed split same
    rw [List.mem_singleton.mp listed] at same
    cases same
  | @split frame children ratios room placed known each ih =>
    have ordered : Ordered frame.ratios := ratios
    have own : (Area.split frame children).WithinBounds ↔
        Split.boundedRatios frame.ratios = frame.ratios := by
      rw [ordered.boundedRatios_eq_self_iff]
      exact ⟨fun within => within _ rfl, fun within split same => Option.some.inj same ▸ within⟩
    rw [preorder, preorderEach_eq, List.forall_mem_cons, own, bounded, boundedEach_eq, rect,
      Area.resize, Area.split.injEq]
    constructor
    · rintro ⟨head, parts⟩
      have same : Split.boundedRatios frame.ratios = frame.ratios := congrArg Partition.ratios head
      rw [same, ← placed, resizeEach_map_eq_iff] at parts
      refine ⟨same, fun inner listed => ?_⟩
      obtain ⟨child, present, below⟩ := List.mem_flatMap.mp listed
      exact (ih child present).mp (parts child present) inner below
    · rintro ⟨same, within⟩
      rw [same, ← placed, resizeEach_map_eq_iff]
      refine ⟨rfl, fun child present => (ih child present).mpr fun inner below => ?_⟩
      exact within inner (List.mem_flatMap.mpr ⟨child, present, below⟩)

end Area

end DockLayout
