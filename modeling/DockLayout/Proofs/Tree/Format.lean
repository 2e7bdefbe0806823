import Mathlib.Data.List.Forall2
import DockLayout.Proofs.Tree.Oversized
import DockLayout.Proofs.Tree.ZeroRects

/-!
# The format of an area

Which values stand for an area, and for which one, said without reading them. Members
may come in any order and beside others, and much is taken for a list or a number. The
reader accepts exactly these values: that is shown for each part of the format and then,
by induction on the value, for whole trees.
-/

set_option autoImplicit false

namespace DockLayout

open Success

variable {K : Type}

/-! ## Lists and numbers -/

namespace Json

inductive HasElements : Json K → List (Json K) → Prop
  | items (items : List (Json K)) : HasElements (.arr items) items
  | keys (entries : List (Text × Json K)) :
      HasElements (.obj entries) (entries.map fun entry => .str entry.1)
  | characters (text : Text) :
      HasElements (.str text) (text.points.map fun point => .str ⟨[point]⟩)

theorem elements_eq_ok {value : Json K} {items : List (Json K)} :
    value.elements = .ok items ↔ value.HasElements items := by
  constructor
  · intro read
    cases value with
    | arr listed => cases read; exact .items items
    | obj entries => cases read; exact .keys entries
    | str text => cases read; exact .characters text
    | _ => cases read
  · intro elements
    cases elements <;> rfl

theorem HasElements.eq_arr {value : Json K} {items : List (Json K)}
    {entries : List (Text × Json K)} (elements : value.HasElements items)
    (listed : .obj entries ∈ items) : value = .arr items := by
  cases elements with
  | items => rfl
  | keys | characters =>
    obtain ⟨_, -, same⟩ := List.mem_map.mp listed
    cases same

section Numbers

variable [Scalar K]

inductive CountsAs : Json K → K → Prop
  | int {i : Int} {x : K} (nearest : Scalar.ofInt? i = some x) : CountsAs (.int i) x
  | real (x : K) : CountsAs (.real x) x
  | bool (b : Bool) : CountsAs (.bool b) (if b then 1 else 0)
  | text {text : Text} {numeral : Numeral} {x : K} (spelled : Numeral.ofText? text = some numeral)
      (named : Scalar.ofNumeral? numeral = some x) : CountsAs (.str text) x

inductive CountsAsInteger : Json K → Int → Prop
  | int (i : Int) : CountsAsInteger (.int i) i
  | real {x : K} {i : Int} (cut : Scalar.truncate x = .whole i) : CountsAsInteger (.real x) i
  | bool (b : Bool) : CountsAsInteger (.bool b) (if b then 1 else 0)
  | text {text : Text} {i : Int} (spelled : Numeral.integer? text = some i) :
      CountsAsInteger (.str text) i

theorem toReal_eq_ok {value : Json K} {x : K} : value.toReal = .ok x ↔ value.CountsAs x := by
  constructor
  · intro read
    cases value with
    | int i =>
      rw [toReal, ofInteger] at read
      split at read
      · rename_i nearest
        cases read
        exact .int nearest
      · cases read
    | real x => cases read; exact .real x
    | bool b => cases read; exact .bool b
    | str text =>
      rw [toReal] at read
      split at read
      · rename_i found
        obtain ⟨numeral, spelled, named⟩ := Option.bind_eq_some_iff.mp found
        cases read
        exact .text spelled named
      · cases read
    | _ => cases read
  · intro counts
    cases counts with
    | int nearest => rw [toReal, ofInteger, nearest]
    | real | bool => rfl
    | text spelled named => rw [toReal, spelled, Option.bind_some, named]

theorem toInteger_eq_ok {value : Json K} {i : Int} :
    value.toInteger = .ok i ↔ value.CountsAsInteger i := by
  constructor
  · intro read
    cases value with
    | int i => cases read; exact .int i
    | real x =>
      rw [toInteger] at read
      split at read
      · rename_i cut
        cases read
        exact .real cut
      · cases read
      · cases read
    | bool b => cases read; exact .bool b
    | str text =>
      rw [toInteger] at read
      split at read
      · rename_i spelled
        cases read
        exact .text spelled
      · cases read
    | _ => cases read
  · intro counts
    cases counts with
    | int | bool => rfl
    | real cut => rw [toInteger, cut]
    | text spelled => rw [toInteger, spelled]

end Numbers

/-! ## Members -/

theorem toOption_member (entries : List (Text × Json K)) (key : Text) :
    ((Json.obj entries).member key).toOption = find? key entries := by
  rw [member]
  cases find? key entries <;> rfl

theorem listed_eq_ok {entries : List (Text × Json K)} {key : Text} {items : List (Json K)} :
    (Json.obj entries).listed key = .ok items ↔
      ∃ value, find? key entries = some value ∧ value.HasElements items := by
  simp [listed, bind_eq_ok, ofField_eq_ok, member_eq_ok, elements_eq_ok]

theorem decodeEach_eq_ok {α : Type} {decode : Json K → Except (LayoutError K) α}
    {values : List (Json K)} {answers : List α} :
    decodeEach decode values = .ok answers ↔
      List.Forall₂ (fun value answer => decode value = .ok answer) values answers := by
  induction values generalizing answers with
  | nil =>
    rw [decodeEach, List.forall₂_nil_left_iff]
    exact ⟨fun same => (Except.ok.inj same).symm, fun none => none ▸ rfl⟩
  | cons value rest ih =>
    simp only [decodeEach, bind_eq_ok, pure_eq_ok, List.forall₂_cons_left_iff, ih]
    constructor
    · rintro ⟨first, here, others, later, same⟩
      exact ⟨first, others, here, later, same.symm⟩
    · rintro ⟨first, others, here, later, same⟩
      exact ⟨first, here, others, later, same.symm⟩

end Json

/-! ## Handles, directions and docks -/

theorem SplitHandle.decode_eq_ok {value : Json K} {handle : SplitHandle} :
    SplitHandle.decode value = .ok handle ↔ value = .int handle.value := by
  constructor
  · intro read
    cases value <;> cases read
    rfl
  · rintro rfl
    rfl

theorem DockHandle.decode_eq_ok {value : Json K} {handle : DockHandle} :
    DockHandle.decode value = .ok handle ↔ value = .int handle.value := by
  constructor
  · intro read
    cases value <;> cases read
    rfl
  · rintro rfl
    rfl

namespace Text

/-- A capital, or the small letter of it. There are two more small letters whose capitals are
plain ones: the i without a dot and the long s. -/
def Spells (point : Nat) (letter : Char) : Prop :=
  point = letter.toNat ∨ point = letter.toNat + 32 ∨
    (letter = 'I' ∧ point = 0x131) ∨ (letter = 'S' ∧ point = 0x17F)

theorem upperPoint_eq_iff {point : Nat} {letter : Char} (capital : 'A' ≤ letter ∧ letter ≤ 'Z') :
    upperPoint point = letter.toNat ↔ Spells point letter := by
  have bounds : 65 ≤ letter.toNat ∧ letter.toNat ≤ 90 := capital
  have dotless : letter = 'I' ↔ letter.toNat = 73 := Char.toNat_inj.symm
  have long : letter = 'S' ↔ letter.toNat = 83 := Char.toNat_inj.symm
  rw [Spells, dotless, long, upperPoint]
  simp only [Bool.and_eq_true, decide_eq_true_eq]
  split
  · omega
  · split
    · omega
    · split <;> omega

theorem upper_eq_iff {text : Text} {letters : List Char}
    (capitals : ∀ letter ∈ letters, 'A' ≤ letter ∧ letter ≤ 'Z') :
    text.upper = .ofChars letters ↔ List.Forall₂ Spells text.points letters := by
  obtain ⟨points⟩ := text
  simp only [upper, ofChars, mk.injEq]
  induction letters generalizing points with
  | nil => simp
  | cons letter rest ih =>
    obtain ⟨first, others⟩ := List.forall_mem_cons.mp capitals
    cases points with
    | nil => simp
    | cons point later =>
      rw [List.map_cons, List.map_cons, List.cons.injEq, upperPoint_eq_iff first, ih others,
        List.forall₂_cons]

end Text

namespace Direction

def letters : Direction → List Char
  | horizontal => ['H', 'O', 'R', 'I', 'Z', 'O', 'N', 'T', 'A', 'L']
  | vertical => ['V', 'E', 'R', 'T', 'I', 'C', 'A', 'L']

theorem upper_eq_name_iff {text : Text} {direction : Direction} :
    text.upper = direction.name.upper ↔ List.Forall₂ Text.Spells text.points direction.letters := by
  have same : direction.name.upper = .ofChars direction.letters := by
    cases direction <;> rfl
  have capitals : ∀ letter ∈ direction.letters, 'A' ≤ letter ∧ letter ≤ 'Z' := by
    cases direction <;> simp [letters]
  rw [same, Text.upper_eq_iff capitals]

theorem ofName?_eq_some {text : Text} {direction : Direction} :
    ofName? text = some direction ↔
      List.Forall₂ Text.Spells text.points direction.letters := by
  have apart : horizontal.name.upper ≠ vertical.name.upper := by decide +kernel
  rw [← upper_eq_name_iff, ofName?]
  constructor
  · intro found
    split at found
    · rename_i same
      cases found
      exact same
    · split at found
      · rename_i same
        cases found
        exact same
      · cases found
  · intro same
    cases direction with
    | horizontal => rw [if_pos same]
    | vertical => rw [if_neg (same ▸ apart.symm), if_pos same]

theorem decode_eq_ok {value : Json K} {direction : Direction} :
    Direction.decode value = .ok direction ↔
      ∃ text, value = .str text ∧ List.Forall₂ Text.Spells text.points direction.letters := by
  constructor
  · intro read
    cases value with
    | str text =>
      rw [Direction.decode] at read
      split at read
      · rename_i found
        cases read
        exact ⟨text, rfl, ofName?_eq_some.mp found⟩
      · cases read
    | _ => cases read
  · rintro ⟨text, rfl, same⟩
    rw [Direction.decode, ofName?_eq_some.mpr same]

end Direction

namespace Dock

inductive DataForm : Option (Json K) → Option (List (Json K)) → Prop
  | absent : DataForm none none
  | null : DataForm (some .null) none
  | listed {value : Json K} {items : List (Json K)} (elements : value.HasElements items) :
      DataForm (some value) (some items)

inductive Form : Json K → Dock K → Prop
  | object {entries : List (Text × Json K)} {dock : Dock K}
      (handle : Json.find? Word.handle entries = some (.int dock.handle.value))
      (plugin : Json.find? Word.pluginName entries = some dock.pluginName)
      (data : DataForm (Json.find? Word.pluginData entries) dock.pluginData) :
      Form (.obj entries) dock

theorem decodePluginData_eq_ok {value : Option (Json K)} {items : Option (List (Json K))} :
    decodePluginData value = .ok items ↔ DataForm value items := by
  constructor
  · intro read
    rw [decodePluginData.eq_def] at read
    split at read
    · cases read
      exact .absent
    · cases read
      exact .null
    · obtain ⟨listed, found, rfl⟩ := map_eq_ok.mp read
      exact .listed (Json.elements_eq_ok.mp (ofField_eq_ok.mp found))
  · intro form
    cases form with
    | absent | null => rfl
    | listed elements => cases elements <;> rfl

theorem decode_eq_ok {value : Json K} {dock : Dock K} :
    Dock.decode value = .ok dock ↔ Form value dock := by
  simp only [Dock.decode, bind_eq_ok, mapError_eq_ok, pure_eq_ok, Json.member_eq_ok,
    DockHandle.decode_eq_ok]
  constructor
  · rintro ⟨_, ⟨entries, rfl, handle⟩, number, rfl, plugin, ⟨_, same, named⟩, data, read, rfl⟩
    cases same
    rw [Json.toOption_member] at read
    exact .object handle named (decodePluginData_eq_ok.mp read)
  · rintro ⟨handle, plugin, data⟩
    refine ⟨_, ⟨_, rfl, handle⟩, _, rfl, _, ⟨_, rfl, plugin⟩, dock.pluginData, ?_, rfl⟩
    rw [Json.toOption_member]
    exact decodePluginData_eq_ok.mpr data

end Dock

variable [Scalar K]

/-! ## Containers -/

namespace Container

/-- The position of the dock to show; the first one if none is given. -/
inductive ActiveForm : Option (Json K) → Int → Prop
  | absent : ActiveForm none 0
  | given {value : Json K} {position : Int} (counts : value.CountsAsInteger position) :
      ActiveForm (some value) position

/-- What the members of an object say about the container it stands for. The container
is not placed yet and has the standard settings. -/
structure Form (entries : List (Text × Json K)) (panel : Container K) : Prop where
  docks : ∃ items, Json.find? Word.docks entries = some (.arr items) ∧
    List.Forall₂ Dock.Form items panel.docks
  filled : panel.docks ≠ []
  active : ActiveForm (Json.find? Word.activeDock entries) panel.active
  shown : panel.active < panel.docks.length
  rect : panel.rect = .zero
  headerHeight : panel.headerHeight = standardHeaderHeight K
  dropEdgeFraction : panel.dropEdgeFraction = standardEdgeFraction K

theorem decodeActive_eq_ok {entries : List (Text × Json K)} {position : Int} :
    decodeActive (.obj entries) = .ok position ↔
      ActiveForm (Json.find? Word.activeDock entries) position := by
  rw [decodeActive, Json.toOption_member]
  cases Json.find? Word.activeDock entries with
  | none =>
    constructor
    · intro read
      cases read
      exact .absent
    · intro form
      cases form
      rfl
  | some value =>
    rw [ofField_eq_ok, Json.toInteger_eq_ok]
    constructor
    · exact .given
    · intro form
      cases form with
      | given counts => exact counts

theorem decodeFields_eq_ok {entries : List (Text × Json K)} {docks : List (Dock K)}
    {position : Int} (filled : docks ≠ []) :
    decodeFields (.obj entries) = .ok (docks, position) ↔
      (∃ items, Json.find? Word.docks entries = some (.arr items) ∧
        List.Forall₂ Dock.Form items docks) ∧
      ActiveForm (Json.find? Word.activeDock entries) position := by
  simp only [decodeFields_eq, bind_eq_ok, pure_eq_ok, Json.listed_eq_ok, Json.decodeEach_eq_ok,
    Dock.decode_eq_ok, decodeActive_eq_ok]
  constructor
  · rintro ⟨items, ⟨value, present, elements⟩, _, each, _, active, same⟩
    cases same
    refine ⟨⟨items, ?_, each⟩, active⟩
    cases each with
    | nil => exact absurd rfl filled
    | cons first others =>
      cases first with
      | object => rw [present, elements.eq_arr List.mem_cons_self]
  · rintro ⟨⟨items, present, each⟩, active⟩
    exact ⟨items, ⟨_, present, .items items⟩, docks, each, position, active, rfl⟩

theorem decode_eq_ok {entries : List (Text × Json K)} {panel : Container K} :
    Container.decode (.obj entries) = .ok panel ↔ Form entries panel := by
  rw [Container.decode, bind_eq_ok]
  simp only [mapError_eq_ok]
  constructor
  · rintro ⟨⟨docks, position⟩, fields, read⟩
    simp only at read
    split at read
    · cases read
    · rename_i some
      split at read
      · rename_i valid
        cases read
        have filled : docks ≠ [] := fun none => some (List.isEmpty_iff.mpr none)
        have whole : (position.toNat : Int) = position := Int.toNat_of_nonneg valid.1
        have shown : position.toNat < docks.length := by omega
        obtain ⟨listed, active⟩ := (decodeFields_eq_ok filled).mp fields
        exact ⟨listed, filled, whole.symm ▸ active, shown, rfl, rfl, rfl⟩
      · cases read
  · intro form
    obtain ⟨docks, active, rect, header, edge⟩ := panel
    obtain ⟨listed, filled, given, shown, rfl, rfl, rfl⟩ := form
    have fields := (decodeFields_eq_ok filled).mpr ⟨listed, given⟩
    have some : docks.isEmpty = false := List.isEmpty_eq_false_iff.mpr filled
    have valid : (0 : Int) ≤ active ∧ (active : Int) < docks.length :=
      ⟨Int.natCast_nonneg active, Int.ofNat_lt.mpr shown⟩
    refine ⟨_, fields, ?_⟩
    simp only [some, if_neg Bool.false_ne_true, if_pos valid, Int.toNat_natCast]

end Container

/-! ## Splits -/

namespace Split

/-- What the members of an object say about the split it stands for, its children apart. -/
structure HeadForm (entries : List (Text × Json K)) (handle : SplitHandle)
    (direction : Direction) (ratios : List K) : Prop where
  handle : Json.find? Word.handle entries = some (.int handle.value)
  direction : ∃ text, Json.find? Word.direction entries = some (.str text) ∧
    List.Forall₂ Text.Spells text.points direction.letters
  ratios : ∃ value items, Json.find? Word.ratios entries = some value ∧
    value.HasElements items ∧ List.Forall₂ Json.CountsAs items ratios

theorem decodeHead_eq_ok {entries : List (Text × Json K)} {handle : SplitHandle}
    {direction : Direction} {ratios : List K} :
    decodeHead (.obj entries) = .ok (handle, direction, ratios) ↔
      HeadForm entries handle direction ratios := by
  simp only [decodeHead_eq, decodeName, bind_eq_ok, pure_eq_ok, ofField_eq_ok, Json.member_eq_ok,
    SplitHandle.decode_eq_ok, Direction.decode_eq_ok, Json.listed_eq_ok, Json.decodeEach_eq_ok,
    Json.toReal_eq_ok]
  constructor
  · rintro ⟨_, ⟨_, ⟨_, same, named⟩, _, rfl, _, ⟨_, again, towards⟩, _, ⟨text, rfl, name⟩, rfl⟩,
      items, ⟨value, written, elements⟩, _, numbers, fields⟩
    cases same
    cases again
    cases fields
    exact ⟨named, ⟨text, towards, name⟩, value, items, written, elements, numbers⟩
  · rintro ⟨named, ⟨text, towards, name⟩, value, items, written, elements, numbers⟩
    exact ⟨(handle, direction), ⟨_, ⟨entries, rfl, named⟩, handle, rfl, _,
      ⟨entries, rfl, towards⟩, direction, ⟨text, rfl, name⟩, rfl⟩, items,
      ⟨value, written, elements⟩, ratios, numbers, rfl⟩

theorem hasDescent_eq_false {ratios : List K} :
    hasDescent ratios = false ↔ ratios.IsChain fun first second => ¬ second < first := by
  induction ratios with
  | nil => exact iff_of_true rfl .nil
  | cons first rest ih =>
    cases rest with
    | nil => exact iff_of_true rfl (.singleton first)
    | cons second others =>
      rw [hasDescent, Bool.or_eq_false_iff, decide_eq_false_iff_not, ih, List.isChain_cons_cons]

end Split

/-! ## Areas -/

namespace Area

/-- A value that stands for an area. The area is laid out as it was written: it has all
the children in order, and no rectangles yet. -/
inductive Form : Json K → Area K → Prop
  | container {entries : List (Text × Json K)} {panel : Container K}
      (type : Json.find? Word.type entries = some (.str Word.container))
      (fields : Container.Form entries panel) : Form (.obj entries) (.container panel)
  | split {entries : List (Text × Json K)} {frame : Partition K} {children : List (Area K)}
      {first : List K} {last : K} {items : List (Json K)}
      (type : Json.find? Word.type entries = some (.str Word.split))
      (head : Split.HeadForm entries frame.handle frame.direction (first ++ [last]))
      (one : (last == 1) = true)
      (ratios : frame.ratios =
        (first.map fun ratio => lesser (greater ratio 0.01) 0.99) ++ [last])
      (ascending : frame.ratios.IsChain fun earlier later => ¬ later < earlier)
      (rect : frame.rect = .zero)
      (written : Json.find? Word.children entries = some (.arr items))
      (filled : children ≠ []) (fits : children.length = frame.ratios.length)
      (count : items.length = children.length)
      (each : ∀ entry ∈ items.zip children, Form entry.1 entry.2) :
      Form (.obj entries) (.split frame children)

omit [Scalar K] in
theorem exists_paired {items : List (Json K)} {children : List (Area K)} {child : Area K}
    (count : items.length = children.length) (present : child ∈ children) :
    ∃ item, (item, child) ∈ items.zip children := by
  rw [← List.map_snd_zip count.ge] at present
  obtain ⟨⟨item, _⟩, paired, rfl⟩ := List.mem_map.mp present
  exact ⟨item, paired⟩

theorem Form.rect_zero {value : Json K} {area : Area K} (form : Form value area) :
    ∀ inner ∈ area.preorder, inner.rect = .zero := by
  induction form with
  | container type fields =>
    intro inner listed
    rw [List.mem_singleton.mp listed]
    exact fields.rect
  | @split entries frame children first last items type head one ratios ascending rect written
      filled fits count each ih =>
    rw [preorder, preorderEach_eq, List.forall_mem_cons]
    refine ⟨rect, fun inner listed => ?_⟩
    obtain ⟨child, present, below⟩ := List.mem_flatMap.mp listed
    obtain ⟨item, paired⟩ := exists_paired count present
    exact ih (item, child) paired inner below

theorem assembled_of_decodeEach {items : List (Json K)} {areas : List (Area K)}
    (read : Json.decodeEach decode items = .ok areas) : ∀ area ∈ areas, area.Assembled := by
  intro area present
  obtain ⟨item, -, here⟩ := Json.exists_mem_of_decodeEach read present
  exact decode_assembled item area here

end Area

/-! ## On doubles -/

/-- A split that is read keeps the children it is given, as they are. -/
theorem Split.assemble_eq_ok {handle : SplitHandle} {direction : Direction} {ratios : List Float}
    {children : List (Area Float)} {split : Split Float}
    (assembled : ∀ child ∈ children, child.Assembled) :
    assemble (handle, direction, ratios) children = .ok split ↔
      split = ⟨⟨handle, direction, boundedRatios ratios, .zero⟩, children⟩ ∧
        (∃ first last, ratios = first ++ [last] ∧ (last == 1) = true) ∧
        ((boundedRatios ratios).IsChain fun earlier later => ¬ later < earlier) ∧
        children ≠ [] ∧ children.length = (boundedRatios ratios).length := by
  constructor
  · intro made
    obtain ⟨filled, count, -⟩ := make_eq_ok made
    obtain ⟨ascending, final, present, one⟩ := make_checked made
    refine ⟨eq_of_made made assembled, ?_, hasDescent_eq_false.mp ascending, filled, count⟩
    obtain rfl | ⟨first, last, rfl⟩ := List.eq_nil_or_concat ratios
    · cases present
    · rw [List.concat_eq_append, boundedRatios_append, List.getLast?_concat] at present
      cases present
      exact ⟨first, final, List.concat_eq_append, one⟩
  · rintro ⟨rfl, ⟨first, last, rfl, one⟩, ascending, filled, count⟩
    have present : (boundedRatios (first ++ [last])).getLast? = some last := by
      rw [boundedRatios_append, List.getLast?_concat]
    have made := make_of_checked direction handle .zero filled count present one
      (hasDescent_eq_false.mpr ascending)
    rw [assemble, made]
    exact congrArg Except.ok (eq_of_made made assembled)

namespace Area

/-- The reader takes the values of the format for the areas they stand for. -/
theorem decode_eq_ok {value : Json Float} {area : Area Float} :
    decode value = .ok area ↔ Form value area := by
  induction value using Json.induct_items generalizing area with
  | step value each =>
  by_cases known : HasKnownType value
  case neg =>
    -- a value of another type is refused, and is no form of anything
    refine iff_of_false ?_ fun form => known ?_
    · obtain ⟨other, refused | refused⟩ := decode_of_unknown known
      · rw [refused]
        nofun
      · rw [refused]
        nofun
    · cases form with
      | container type => exact ⟨_, rfl, .inr type⟩
      | split type => exact ⟨_, rfl, .inl type⟩
  obtain ⟨entries, rfl, type | type⟩ := known
  · simp only [decode_of_split type, bind_eq_ok, mapError_eq_ok, pure_eq_ok]
    constructor
    · rintro ⟨⟨handle, direction, ratios⟩, head, children, below, split, made, rfl⟩
      have filled : children ≠ [] := (Split.make_eq_ok made).1
      obtain ⟨items, written, read⟩ := (decodeChildren_eq_ok filled).mp below
      obtain ⟨count, pairs⟩ := List.forall₂_iff_zip.mp (Json.decodeEach_eq_ok.mp read)
      obtain ⟨rfl, ⟨first, last, rfl, one⟩, ascending, -, fits⟩ :=
        (Split.assemble_eq_ok (assembled_of_decodeEach read)).mp made
      refine .split type (Split.decodeHead_eq_ok.mp head) one
        (Split.boundedRatios_append first last) ascending rfl written filled fits count ?_
      rintro ⟨item, child⟩ paired
      have listed := (List.of_mem_zip paired).1
      exact (each entries _ items rfl written item listed).mp (pairs paired)
    · intro form
      cases form with
      | container other =>
        rw [type] at other
        cases other
      | @split _ frame children first last items _ head one ratios ascending rect written filled
          fits count forms =>
        obtain ⟨handle, direction, _, _⟩ := frame
        obtain rfl := rect
        obtain rfl := ratios.trans (Split.boundedRatios_append first last).symm
        -- the children are read by the induction hypothesis, and only then is it known that
        -- the split they are put into leaves them as they are
        have read : Json.decodeEach decode items = .ok children := by
          rw [Json.decodeEach_eq_ok, List.forall₂_iff_zip]
          refine ⟨count, fun {item child} paired => ?_⟩
          have listed := (List.of_mem_zip paired).1
          exact (each entries _ items rfl written item listed).mpr (forms _ paired)
        refine ⟨_, Split.decodeHead_eq_ok.mpr head, children, ?_,
          ⟨⟨handle, direction, Split.boundedRatios (first ++ [last]), .zero⟩, children⟩, ?_, rfl⟩
        · exact (decodeChildren_eq_ok filled).mpr ⟨items, written, read⟩
        · exact (Split.assemble_eq_ok (assembled_of_decodeEach read)).mpr
            ⟨rfl, ⟨first, last, rfl, one⟩, ascending, filled, fits⟩
  · rw [decode_of_container type, map_eq_ok]
    constructor
    · rintro ⟨panel, read, rfl⟩
      exact .container type (Container.decode_eq_ok.mp read)
    · intro form
      cases form with
      | container _ fields => exact ⟨_, Container.decode_eq_ok.mpr fields, rfl⟩
      | split other =>
        rw [type] at other
        cases other

/-- Reading accepts exactly its format, and makes of a value the area it stands for, no
part of which has been placed. -/
theorem reading_accepts_exactly_its_format (value : Json Float) (area : Area Float) :
    (decode value = .ok area ↔ Form value area) ∧
      (Form value area → ∀ inner ∈ area.preorder, inner.rect = .zero) :=
  ⟨decode_eq_ok, Form.rect_zero⟩

end Area

end DockLayout
