import DockLayout.Proofs.Tree.Malformed

/-!
# Numbers that are too large

Two numbers of a layout file are converted: a ratio to a scalar, and the position of
the active tab to an integer. A whole number may be beyond all scalars, and an infinity
is no integer. Reading fails with a number that is too large exactly when it comes upon
one of the two before anything else is wrong.
-/

set_option autoImplicit false

namespace DockLayout

open LayoutError (ofField TooLarge wraps_inSplit wraps_inContainer)
open Success

variable {K : Type} [Scalar K]

/-- Reading the value as an area comes upon a number that is too large, everything
before which can be read. -/
inductive Oversized : Json K → Prop
  | ratio {entries : List (Text × Json K)} {name : SplitHandle × Direction}
      {front back : List (Json K)} {ratio : Int}
      (type : Json.find? Word.type entries = some (.str Word.split))
      (named : Split.decodeName (.obj entries) = .ok name)
      (written : (Json.obj entries).listed Word.ratios = .ok (front ++ .int ratio :: back))
      (before : ∀ value ∈ front, ∃ x : K, value.toReal = .ok x)
      (large : Scalar.ofInt? ratio = (none : Option K)) : Oversized (.obj entries)
  | child {entries : List (Text × Json K)} {head : SplitHandle × Direction × List K}
      {front back : List (Json K)} {bad : Json K}
      (type : Json.find? Word.type entries = some (.str Word.split))
      (read : Split.decodeHead (.obj entries) = .ok head)
      (written : Json.find? Word.children entries = some (.arr (front ++ bad :: back)))
      (before : ∀ value ∈ front, ∃ area, Area.decode value = .ok area)
      (below : Oversized bad) : Oversized (.obj entries)
  | active {entries : List (Text × Json K)} {written : List (Json K)} {docks : List (Dock K)}
      {active : K} (type : Json.find? Word.type entries = some (.str Word.container))
      (listed : (Json.obj entries).listed Word.docks = .ok written)
      (read : Json.decodeEach Dock.decode written = .ok docks)
      (given : Json.find? Word.activeDock entries = some (.real active))
      (endless : Scalar.truncate active = .infinite) : Oversized (.obj entries)

/-! ## The two conversions -/

theorem Json.tooLarge_toReal {value : Json K} :
    FailsWith TooLarge (ofField value.toReal : Except (LayoutError K) K) ↔
      ∃ i, value = .int i ∧ Scalar.ofInt? i = (none : Option K) := by
  rw [ofField, failsWith_mapError]
  constructor
  · rintro ⟨error, failed, large⟩
    cases value with
    | int i =>
      refine ⟨i, rfl, ?_⟩
      rw [toReal, ofInteger] at failed
      split at failed
      · cases failed
      · rename_i none
        exact none
    | str text =>
      rw [toReal] at failed
      split at failed <;> cases failed
      cases large
    | _ => cases failed <;> cases large
  · rintro ⟨i, rfl, none⟩
    refine ⟨.integerTooLarge, ?_, rfl⟩
    rw [toReal, ofInteger, none]

theorem Container.tooLarge_decodeActive {entries : List (Text × Json K)} :
    FailsWith TooLarge (Container.decodeActive (.obj entries)) ↔
      ∃ active, Json.find? Word.activeDock entries = some (.real active) ∧
        Scalar.truncate active = .infinite := by
  rw [decodeActive, Json.member]
  cases given : Json.find? Word.activeDock entries with
  | none =>
    refine iff_of_false not_failsWith_ok ?_
    rintro ⟨active, missing, -⟩
    cases missing
  | some value =>
    change FailsWith TooLarge (ofField value.toInteger) ↔ _
    rw [ofField, failsWith_mapError]
    constructor
    · rintro ⟨error, failed, large⟩
      cases value with
      | real x =>
        refine ⟨x, rfl, ?_⟩
        rw [Json.toInteger] at failed
        split at failed
        · cases failed
        · cases failed
          cases large
        · rename_i endless
          exact endless
      | str text =>
        rw [Json.toInteger] at failed
        split at failed <;> cases failed
        cases large
      | _ => cases failed <;> cases large
    · rintro ⟨active, same, endless⟩
      cases same
      refine ⟨.integerOfInfinity, ?_, rfl⟩
      rw [Json.toInteger, endless]

/-! ## Splits and containers -/

theorem Split.tooLarge_decodeHead {value : Json K} :
    FailsWith TooLarge (Split.decodeHead value) ↔
      ∃ name front ratio back, Split.decodeName value = .ok name ∧
        value.listed Word.ratios = .ok (front ++ .int ratio :: back) ∧
        (∀ earlier ∈ front, ∃ x : K, earlier.toReal = .ok x) ∧
        Scalar.ofInt? ratio = (none : Option K) := by
  rw [decodeHead_eq, failsWith_bind, or_iff_right (Plain.name value).not_tooLarge]
  constructor
  · rintro ⟨name, named, fails⟩
    rw [failsWith_bind, or_iff_right (Plain.listed value _).not_tooLarge] at fails
    obtain ⟨written, listed, fails⟩ := fails
    rw [failsWith_bind] at fails
    rcases fails with fails | ⟨ratios, -, done⟩
    · obtain ⟨front, bad, back, rfl, before, large⟩ := Json.failsWith_decodeEach.mp fails
      obtain ⟨ratio, rfl, none⟩ := Json.tooLarge_toReal.mp large
      refine ⟨name, front, ratio, back, named, listed, fun earlier member => ?_, none⟩
      obtain ⟨x, read⟩ := before earlier member
      exact ⟨x, ofField_eq_ok.mp read⟩
    · exact absurd done not_failsWith_pure
  · rintro ⟨name, front, ratio, back, named, listed, before, none⟩
    refine ⟨name, named, failsWith_bind.mpr (.inr ⟨_, listed, failsWith_bind.mpr (.inl ?_)⟩)⟩
    refine Json.failsWith_decodeEach.mpr ⟨front, .int ratio, back, rfl, ?_, ?_⟩
    · intro earlier member
      obtain ⟨x, read⟩ := before earlier member
      exact ⟨x, ofField_eq_ok.mpr read⟩
    · exact Json.tooLarge_toReal.mpr ⟨ratio, rfl, none⟩

theorem Container.tooLarge_decodeFields {entries : List (Text × Json K)} :
    FailsWith TooLarge (Container.decodeFields (.obj entries)) ↔
      ∃ written docks active, (Json.obj entries).listed Word.docks = .ok written ∧
        Json.decodeEach Dock.decode written = .ok docks ∧
        Json.find? Word.activeDock entries = some (.real active) ∧
        Scalar.truncate active = .infinite := by
  rw [decodeFields_eq, failsWith_bind, or_iff_right (Plain.listed _ _).not_tooLarge]
  constructor
  · rintro ⟨written, listed, fails⟩
    rw [failsWith_bind] at fails
    rcases fails with fails | ⟨docks, read, fails⟩
    · refine absurd fails (Json.not_failsWith_decodeEach fun dock _ => ?_)
      exact (Plain.dock dock).not_tooLarge
    · rw [failsWith_bind, or_iff_left fun ⟨_, _, done⟩ => not_failsWith_pure done,
        tooLarge_decodeActive] at fails
      obtain ⟨active, given, endless⟩ := fails
      exact ⟨written, docks, active, listed, read, given, endless⟩
  · rintro ⟨written, docks, active, listed, read, given, endless⟩
    refine ⟨written, listed, failsWith_bind.mpr (.inr ⟨docks, read, failsWith_bind.mpr (.inl ?_)⟩)⟩
    exact tooLarge_decodeActive.mpr ⟨active, given, endless⟩

/-- The checks of a container come after its numbers. -/
theorem Container.tooLarge_decode {value : Json K} :
    FailsWith TooLarge (Container.decode value) ↔
      FailsWith TooLarge (Container.decodeFields value) := by
  rw [Container.decode, failsWith_bind, wraps_inContainer.failsWith_tooLarge]
  refine or_iff_left ?_
  rintro ⟨⟨docks, active⟩, -, error, failed, large⟩
  simp only at failed
  split at failed
  · cases failed
    cases large
  · split at failed
    · cases failed
    · cases failed
      cases large

namespace Area

theorem tooLarge_decodeChildren {entries : List (Text × Json K)} :
    FailsWith TooLarge (decodeChildren entries) ↔
      ∃ front bad back, Json.find? Word.children entries = some (.arr (front ++ bad :: back)) ∧
        (∀ value ∈ front, ∃ area, decode value = .ok area) ∧ FailsWith TooLarge (decode bad) := by
  rcases decodeChildren_cases entries with ⟨items, present, read⟩ | ⟨missing, plain⟩
  · rw [read, Json.failsWith_decodeEach]
    constructor
    · rintro ⟨front, bad, back, rfl, before, fails⟩
      exact ⟨front, bad, back, present, before, fails⟩
    · rintro ⟨front, bad, back, same, before, fails⟩
      rw [present] at same
      cases same
      exact ⟨front, bad, back, rfl, before, fails⟩
  · refine iff_of_false plain.not_tooLarge ?_
    rintro ⟨front, bad, back, present, -⟩
    exact missing _ present

theorem tooLarge_of_split {entries : List (Text × Json K)}
    (type : Json.find? Word.type entries = some (.str Word.split)) :
    FailsWith TooLarge (decode (.obj entries)) ↔
      FailsWith TooLarge (Split.decodeHead (.obj entries)) ∨
        ∃ head, Split.decodeHead (.obj entries) = .ok head ∧
          FailsWith TooLarge (decodeChildren entries) := by
  have made : ∀ (head : SplitHandle × Direction × List K) (children : List (Area K)),
      ¬ FailsWith TooLarge (Split.assemble head children >>= fun split =>
        (pure split.toArea : Except (LayoutError K) (Area K))) := by
    intro head children
    refine not_failsWith_bind ?_ fun _ => not_failsWith_pure
    rintro ⟨error, failed, large⟩
    exact LayoutError.not_tooLarge_of_invalid (Split.category_of_make failed) large
  have below : ∀ head : SplitHandle × Direction × List K,
      FailsWith TooLarge ((decodeChildren entries).mapError LayoutError.inSplit >>=
        fun children => Split.assemble head children >>= fun split => pure split.toArea) ↔
        FailsWith TooLarge (decodeChildren entries) := by
    intro head
    rw [failsWith_bind, wraps_inSplit.failsWith_tooLarge]
    exact or_iff_left fun ⟨children, _, fails⟩ => made head children fails
  rw [decode_of_split type, failsWith_bind, wraps_inSplit.failsWith_tooLarge]
  simp only [mapError_eq_ok, below]

theorem tooLarge_iff_oversized (value : Json K) :
    FailsWith TooLarge (decode value) ↔ Oversized value := by
  induction value using Json.induct_items with
  | step value each =>
  by_cases known : HasKnownType value
  case neg =>
    refine iff_of_false ?_ fun oversized => known ?_
    · obtain ⟨other, refused | refused⟩ := decode_of_unknown known
      · rw [refused, failsWith_error]
        nofun
      · rw [refused, failsWith_error]
        nofun
    · cases oversized with
      | ratio type => exact ⟨_, rfl, .inl type⟩
      | child type => exact ⟨_, rfl, .inl type⟩
      | active type => exact ⟨_, rfl, .inr type⟩
  obtain ⟨entries, rfl, type | type⟩ := known
  · rw [tooLarge_of_split type, Split.tooLarge_decodeHead, tooLarge_decodeChildren]
    constructor
    · rintro (⟨name, front, ratio, back, named, written, before, large⟩ |
        ⟨head, read, front, bad, back, written, before, fails⟩)
      · exact .ratio type named written before large
      · have listed := List.mem_append_right front (List.mem_cons_self (a := bad) (l := back))
        exact .child type read written before ((each entries _ _ rfl written bad listed).mp fails)
    · intro oversized
      cases oversized with
      | ratio _ named written before large =>
        exact .inl ⟨_, _, _, _, named, written, before, large⟩
      | @child _ head front back bad _ read written before below =>
        have listed := List.mem_append_right front (List.mem_cons_self (a := bad) (l := back))
        exact .inr ⟨head, read, front, bad, back, written, before,
          (each entries _ _ rfl written bad listed).mpr below⟩
      | active other =>
        rw [type] at other
        cases other
  · rw [decode_of_container type, failsWith_map, Container.tooLarge_decode,
      Container.tooLarge_decodeFields]
    constructor
    · rintro ⟨written, docks, active, listed, read, given, endless⟩
      exact .active type listed read given endless
    · intro oversized
      cases oversized with
      | active _ listed read given endless => exact ⟨_, _, _, listed, read, given, endless⟩
      | ratio other =>
        rw [type] at other
        cases other
      | child other =>
        rw [type] at other
        cases other

end Area

end DockLayout
