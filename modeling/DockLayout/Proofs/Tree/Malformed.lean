import Mathlib.Logic.Basic
import DockLayout.Proofs.Tree.Reading

/-!
# Errors of reading

What is wrong with a field is reported as wrong data of the split or the container
around it, if the shape of the field is wrong. So reading an area fails in one of two
ways: with an error that says the data is invalid, or with one about a number that is
too large, which no one turns into anything else.
-/

set_option autoImplicit false

namespace DockLayout

open LayoutError (ofField)
open Success

variable {K : Type}

/-! ## Kinds of errors -/

theorem FieldError.category_of_isShape {error : FieldError} (shape : error.isShape = true) :
    error.category = .missingKey ∨ error.category = .wrongType := by
  cases error with
  | missing key => exact .inl rfl
  | noMembers | keyOfList | keyOfText | noElements | noReal | noInteger => exact .inr rfl
  | _ => cases shape

namespace LayoutError

def TooLarge (error : LayoutError K) : Prop := error.category = .numberTooLarge

def Foreign (error : LayoutError K) : Prop :=
  error.category = .indexOutOfRange ∨ error.category = .missingFile

/-- What reading is to report: invalid data, or else a number that is too large. -/
def Reported (error : LayoutError K) : Prop :=
  error.category = .invalidValue ∨ error.TooLarge

section

variable {error : LayoutError K}

theorem not_tooLarge_of_invalid (invalid : error.category = .invalidValue) :
    ¬ error.TooLarge := by
  rw [TooLarge, invalid]
  decide

theorem not_foreign_of_invalid (invalid : error.category = .invalidValue) :
    ¬ error.Foreign := by
  rw [Foreign, invalid]
  decide

theorem Reported.not_foreign (reported : error.Reported) : ¬ error.Foreign := by
  rcases reported with invalid | large
  · exact not_foreign_of_invalid invalid
  · rw [TooLarge] at large
    rw [Foreign, large]
    decide

end

theorem kinds (error : LayoutError K) :
    (∃ cause, error = .field cause ∧ cause.isShape = true) ∨ error.Reported ∨ error.Foreign := by
  cases error with
  | field cause =>
    cases cause with
    | missing | noMembers | keyOfList | keyOfText | noElements | noReal | noInteger =>
      exact .inl ⟨_, rfl, rfl⟩
    | realText | integerText | integerOfNotANumber => exact .inr (.inl (.inl rfl))
    | integerOfInfinity | integerTooLarge => exact .inr (.inl (.inr rfl))
  | childIndex | boundaryIndex | noActiveDock => exact .inr (.inr (.inl rfl))
  | missingFile => exact .inr (.inr (.inr rfl))
  | _ => exact .inr (.inl (.inl rfl))

/-- Turns errors about the shape of a field into errors of what the field belongs to. -/
structure Wraps (change : LayoutError K → LayoutError K) : Prop where
  shape : ∀ cause, cause.isShape = true → (change (.field cause)).category = .invalidValue
  other : ∀ error, (∀ cause, error = .field cause → cause.isShape = false) → change error = error

theorem wraps_inSplit : Wraps (inSplit : LayoutError K → LayoutError K) where
  shape := by
    intro cause shape
    rw [inSplit, if_pos shape]
    rfl
  other := by
    intro error other
    cases error with
    | field cause => rw [inSplit, other cause rfl, if_neg Bool.false_ne_true]
    | _ => rfl

theorem wraps_inContainer : Wraps (inContainer : LayoutError K → LayoutError K) where
  shape := by
    intro cause shape
    rw [inContainer, if_pos shape]
    rfl
  other := by
    intro error other
    cases error with
    | field cause => rw [inContainer, other cause rfl, if_neg Bool.false_ne_true]
    | _ => rfl

namespace Wraps

variable {change : LayoutError K → LayoutError K} (wraps : Wraps change)

include wraps

theorem unchanged {error : LayoutError K}
    (other : ¬ ∃ cause, error = .field cause ∧ cause.isShape = true) : change error = error :=
  wraps.other error fun cause same => eq_false_of_ne_true fun shape => other ⟨cause, same, shape⟩

theorem reported {error : LayoutError K} (data : ¬ error.Foreign) : (change error).Reported := by
  by_cases shape : ∃ cause, error = .field cause ∧ cause.isShape = true
  · obtain ⟨cause, rfl, shape⟩ := shape
    exact .inl (wraps.shape cause shape)
  · rw [wraps.unchanged shape]
    rcases error.kinds with wrapped | reported | foreign
    · exact absurd wrapped shape
    · exact reported
    · exact absurd foreign data

theorem tooLarge_iff {error : LayoutError K} : (change error).TooLarge ↔ error.TooLarge := by
  by_cases shape : ∃ cause, error = .field cause ∧ cause.isShape = true
  · obtain ⟨cause, rfl, shape⟩ := shape
    refine iff_of_false (not_tooLarge_of_invalid (wraps.shape cause shape)) ?_
    rw [TooLarge, category]
    rcases FieldError.category_of_isShape shape with missing | wrong
    · rw [missing]
      decide
    · rw [wrong]
      decide
  · rw [wraps.unchanged shape]

theorem not_unreported {α : Type} {result : Except (LayoutError K) α}
    (data : ¬ FailsWith Foreign result) :
    ¬ FailsWith (fun error => ¬ error.Reported) (result.mapError change) := by
  rw [failsWith_mapError]
  intro fails
  apply data
  exact fails.mono fun error odd => by_contra fun data => odd (wraps.reported data)

theorem failsWith_tooLarge {α : Type} {result : Except (LayoutError K) α} :
    FailsWith TooLarge (result.mapError change) ↔ FailsWith TooLarge result := by
  rw [failsWith_mapError]
  exact ⟨fun fails => fails.mono fun error => wraps.tooLarge_iff.mp,
    fun fails => fails.mono fun error => wraps.tooLarge_iff.mpr⟩

end Wraps

end LayoutError

open LayoutError (TooLarge Foreign Reported wraps_inSplit wraps_inContainer)

/-! ## Parts that are read without numbers -/

/-- The computation fails for reasons of data only, and not because a number is too
large. -/
def Plain {α : Type} (result : Except (LayoutError K) α) : Prop :=
  ¬ FailsWith (fun error => error.Foreign ∨ error.TooLarge) result

namespace Plain

variable {α β : Type} {result : Except (LayoutError K) α}

theorem not_foreign (plain : Plain result) : ¬ FailsWith Foreign result :=
  fun fails => plain (fails.mono fun _ => .inl)

theorem not_tooLarge (plain : Plain result) : ¬ FailsWith TooLarge result :=
  fun fails => plain (fails.mono fun _ => .inr)

theorem of_invalid (invalid : ∀ error, result = .error error → error.category = .invalidValue) :
    Plain result := by
  rintro ⟨error, same, foreign | large⟩
  · exact LayoutError.not_foreign_of_invalid (invalid error same) foreign
  · exact LayoutError.not_tooLarge_of_invalid (invalid error same) large

theorem bind {next : α → Except (LayoutError K) β} (here : Plain result)
    (later : ∀ answer, Plain (next answer)) : Plain (result >>= next) :=
  not_failsWith_bind here later

theorem map (plain : Plain result) (change : α → β) : Plain (result.map change) :=
  fun fails => plain (failsWith_map.mp fails)

theorem ofField {field : Except FieldError α}
    (shape : ∀ error, field = .error error → error.isShape = true) :
    Plain (ofField field : Except (LayoutError K) α) := by
  rw [Plain, LayoutError.ofField, failsWith_mapError]
  rintro ⟨error, same, kind⟩
  have category := FieldError.category_of_isShape (shape error same)
  change ((error.category = _ ∨ error.category = _) ∨ error.category = _) at kind
  rcases category with missing | wrong
  · rw [missing] at kind
    revert kind
    decide
  · rw [wrong] at kind
    revert kind
    decide

theorem member (value : Json K) (key : Text) :
    Plain (LayoutError.ofField (value.member key) : Except (LayoutError K) (Json K)) := by
  apply ofField
  intro error failed
  cases value with
  | obj entries =>
    rw [Json.member] at failed
    split at failed
    · cases failed
    · cases failed
      rfl
  | _ => cases failed; rfl

theorem elements (value : Json K) :
    Plain (LayoutError.ofField value.elements : Except (LayoutError K) (List (Json K))) := by
  apply ofField
  intro error failed
  cases value with
  | arr | obj | str => cases failed
  | _ => cases failed; rfl

theorem listed (value : Json K) (key : Text) : Plain (value.listed key) :=
  bind (member value key) elements

theorem splitHandle (value : Json K) : Plain (SplitHandle.decode value) := by
  apply of_invalid
  intro error failed
  cases value with
  | int => cases failed
  | _ => cases failed; rfl

theorem dockHandle (value : Json K) : Plain (DockHandle.decode value) := by
  apply of_invalid
  intro error failed
  cases value with
  | int => cases failed
  | _ => cases failed; rfl

theorem direction (value : Json K) : Plain (Direction.decode value) := by
  apply of_invalid
  intro error failed
  cases value with
  | str text =>
    rw [Direction.decode] at failed
    split at failed
    · cases failed
    · cases failed
      rfl
  | _ => cases failed; rfl

theorem name (value : Json K) : Plain (Split.decodeName value) := by
  refine bind (member value _) fun handle => bind (splitHandle handle) fun _ => ?_
  refine bind (member value _) fun direction => bind (Plain.direction direction) fun _ => ?_
  exact not_failsWith_pure

theorem pluginData (value : Option (Json K)) : Plain (Dock.decodePluginData value) := by
  cases value with
  | none => exact not_failsWith_ok
  | some value =>
    have listed := (elements value).map some
    cases value with
    | null => exact not_failsWith_ok
    | _ => exact listed

theorem dock (value : Json K) : Plain (Dock.decode value) := by
  have member (key : Text) : Plain ((value.member key).mapError fun _ =>
      (.dockData value : LayoutError K)) := by
    apply of_invalid
    intro error failed
    cases given : value.member key with
    | ok found => rw [given] at failed; cases failed
    | error cause => rw [given] at failed; cases failed; rfl
  refine bind (member Word.handle) fun handle => bind (dockHandle handle) fun _ => ?_
  refine bind (member Word.pluginName) fun _ => bind (pluginData _) fun _ => ?_
  exact not_failsWith_pure

theorem refuseElement (values : List (Json K)) :
    Plain (Area.refuseElement values : Except (LayoutError K) (List α)) := by
  apply of_invalid
  intro error failed
  cases values <;> cases failed
  rfl

end Plain

theorem Json.not_failsWith_decodeEach {α : Type} {kind : LayoutError K → Prop}
    {decode : Json K → Except (LayoutError K) α} {values : List (Json K)}
    (each : ∀ value ∈ values, ¬ FailsWith kind (decode value)) :
    ¬ FailsWith kind (decodeEach decode values) := by
  rw [failsWith_decodeEach]
  rintro ⟨front, bad, back, rfl, -, fails⟩
  exact each bad (List.mem_append_right front List.mem_cons_self) fails

theorem not_foreign_ofField {α : Type} (field : Except FieldError α) :
    ¬ FailsWith Foreign (ofField field : Except (LayoutError K) α) := by
  rw [ofField, failsWith_mapError]
  rintro ⟨error, -, kind⟩
  cases error <;> rcases kind with other | other <;> cases other

variable [Scalar K]

theorem Split.category_of_make {children : List (Area K)} {ratios : List K}
    {direction : Direction} {handle : SplitHandle} {rect : Rect K} {error : LayoutError K}
    (failed : Split.make children ratios direction handle rect = .error error) :
    error.category = .invalidValue := by
  rw [Split.make] at failed
  split at failed
  · cases failed
    rfl
  · split at failed
    · cases failed
      rfl
    · split at failed
      · cases failed
        rfl
      · split at failed
        · cases failed
          rfl
        · split at failed
          · cases failed
            rfl
          · cases failed

namespace Area

theorem decodeChildren_cases (entries : List (Text × Json K)) :
    (∃ items, Json.find? Word.children entries = some (.arr items) ∧
      decodeChildren entries = Json.decodeEach decode items) ∨
    (∀ items, Json.find? Word.children entries ≠ some (.arr items)) ∧
      Plain (decodeChildren entries) := by
  have read := decodeChildren_eq entries
  cases present : Json.find? Word.children entries with
  | none =>
    refine .inr ⟨fun items same => Option.some_ne_none _ same.symm, ?_⟩
    simp only [Json.member, present] at read
    replace read : decodeChildren entries = ofField (.error (.missing Word.children)) := read
    rw [read]
    apply Plain.ofField
    rintro _ ⟨⟩
    rfl
  | some found =>
    simp only [Json.member, present] at read
    replace read : decodeChildren entries = decodeElements found := read
    by_cases listed : ∃ items, found = .arr items
    · obtain ⟨items, rfl⟩ := listed
      exact .inl ⟨items, rfl, by rw [read, decodeElements, decodeItems_eq]⟩
    · refine .inr ⟨fun items same => listed ⟨items, Option.some.inj same⟩, ?_⟩
      rw [read, decodeElements]
      · exact Plain.bind (Plain.elements _) Plain.refuseElement
      · exact fun items same => listed ⟨items, same⟩

end Area

/-! ## Every error is reported -/

theorem Split.decodeHead_not_foreign (value : Json K) :
    ¬ FailsWith Foreign (Split.decodeHead value) := by
  rw [decodeHead_eq]
  refine not_failsWith_bind (Plain.name value).not_foreign fun name => ?_
  refine not_failsWith_bind (Plain.listed value _).not_foreign fun written => ?_
  refine not_failsWith_bind ?_ fun ratios => not_failsWith_pure
  exact Json.not_failsWith_decodeEach fun ratio _ => not_foreign_ofField ratio.toReal

theorem Container.decodeFields_not_foreign (value : Json K) :
    ¬ FailsWith Foreign (Container.decodeFields value) := by
  rw [decodeFields_eq]
  refine not_failsWith_bind (Plain.listed value _).not_foreign fun written => ?_
  refine not_failsWith_bind ?_ fun docks => not_failsWith_bind ?_ fun _ => not_failsWith_pure
  · exact Json.not_failsWith_decodeEach fun dock _ => (Plain.dock dock).not_foreign
  · unfold decodeActive
    cases (value.member Word.activeDock).toOption with
    | none => exact not_failsWith_ok
    | some position => exact not_foreign_ofField position.toInteger

theorem Container.decode_not_unreported (value : Json K) :
    ¬ FailsWith (fun error => ¬ error.Reported) (Container.decode value) := by
  refine not_failsWith_bind
    (wraps_inContainer.not_unreported (decodeFields_not_foreign value)) fun fields => ?_
  rintro ⟨error, failed, odd⟩
  simp only at failed
  split at failed
  · cases failed
    exact odd (.inl rfl)
  · split at failed
    · cases failed
    · cases failed
      exact odd (.inl rfl)

namespace Area

theorem decode_not_unreported (value : Json K) :
    ¬ FailsWith (fun error => ¬ error.Reported) (decode value) := by
  induction value using Json.induct_items with
  | step value each =>
  by_cases known : HasKnownType value
  case neg =>
    obtain ⟨other, refused | refused⟩ := decode_of_unknown known
    · rw [refused, failsWith_error]
      exact fun odd => odd (.inl rfl)
    · rw [refused, failsWith_error]
      exact fun odd => odd (.inl rfl)
  obtain ⟨entries, rfl, type | type⟩ := known
  · rw [decode_of_split type]
    refine not_failsWith_bind
      (wraps_inSplit.not_unreported (Split.decodeHead_not_foreign _)) fun head => ?_
    refine not_failsWith_bind (wraps_inSplit.not_unreported ?_) fun children => ?_
    · rcases decodeChildren_cases entries with ⟨items, present, read⟩ | ⟨-, plain⟩
      · rw [read]
        refine Json.not_failsWith_decodeEach fun item listed fails => ?_
        exact each entries _ items rfl present item listed
          (fails.mono fun error foreign reported => reported.not_foreign foreign)
      · exact plain.not_foreign
    · refine not_failsWith_bind ?_ fun _ => not_failsWith_pure
      rintro ⟨error, failed, odd⟩
      exact odd (.inl (Split.category_of_make failed))
  · rw [decode_of_container type, failsWith_map]
    exact Container.decode_not_unreported _

/-- Whatever is read as an area is one, or is reported. -/
theorem decode_reported {value : Json K} {error : LayoutError K}
    (failed : decode value = .error error) : error.Reported :=
  by_contra fun odd => decode_not_unreported value ⟨error, failed, odd⟩

end Area

end DockLayout
