import DockLayout.Proofs.Success
import DockLayout.Tree.Persist

/-!
# How an area is read

Reading looks at the type of a value first. A split is read in the order of its
members, its children one after the other, and a container in the order of its own.
The children are the items of a list, unless there are none.

What is true of a value as soon as it is true of the items listed in its members is
true of every value, which is how statements about reading are proved.
-/

set_option autoImplicit false

namespace DockLayout

open LayoutError (ofField)
open Success

variable {K : Type}

theorem ofField_eq_ok {α : Type} {field : Except FieldError α} {answer : α} :
    (ofField field : Except (LayoutError K) α) = .ok answer ↔ field = .ok answer :=
  mapError_eq_ok

namespace Json

theorem member_eq_ok {value found : Json K} {key : Text} :
    value.member key = .ok found ↔
      ∃ entries, value = .obj entries ∧ find? key entries = some found := by
  constructor
  · intro read
    cases value with
    | obj entries =>
      rw [member] at read
      split at read
      · rename_i present
        cases read
        exact ⟨entries, rfl, present⟩
      · cases read
    | _ => cases read
  · rintro ⟨entries, rfl, present⟩
    rw [member, present]

theorem sizeOf_find? {key : Text} {entries : List (Text × Json K)} {found : Json K}
    (present : find? key entries = some found) : sizeOf found < sizeOf entries := by
  induction entries with
  | nil => cases present
  | cons entry rest ih =>
    obtain ⟨name, value⟩ := entry
    rw [find?] at present
    split at present
    · cases present
      simp only [List.cons.sizeOf_spec, Prod.mk.sizeOf_spec]
      omega
    · have smaller := ih present
      simp only [List.cons.sizeOf_spec]
      omega

/-- What holds of a value whenever it holds of every item that is listed in one of its
members holds of every value. -/
@[elab_as_elim]
theorem induct_items {P : Json K → Prop}
    (step : ∀ value, (∀ entries key items, value = .obj entries →
      find? key entries = some (.arr items) → ∀ item ∈ items, P item) → P value)
    (value : Json K) : P value :=
  step value fun entries key items same present item listed =>
    have smaller : sizeOf item < sizeOf value := by
      have member := List.sizeOf_lt_of_mem listed
      have found := sizeOf_find? present
      simp only [same, Json.arr.sizeOf_spec, Json.obj.sizeOf_spec] at found ⊢
      omega
    induct_items step item
termination_by sizeOf value

theorem exists_mem_of_decodeEach {α : Type} {decode : Json K → Except (LayoutError K) α}
    {values : List (Json K)} {answers : List α} {answer : α}
    (read : decodeEach decode values = .ok answers) (listed : answer ∈ answers) :
    ∃ value ∈ values, decode value = .ok answer := by
  induction values generalizing answers with
  | nil =>
    cases read
    cases listed
  | cons value rest ih =>
    rw [decodeEach] at read
    obtain ⟨first, here, read⟩ := bind_eq_ok.mp read
    obtain ⟨others, later, read⟩ := bind_eq_ok.mp read
    obtain rfl := pure_eq_ok.mp read
    rcases List.mem_cons.mp listed with rfl | other
    · exact ⟨value, List.mem_cons_self, here⟩
    · obtain ⟨origin, member, below⟩ := ih later other
      exact ⟨origin, List.mem_cons_of_mem value member, below⟩

theorem failsWith_decodeEach {α : Type} {kind : LayoutError K → Prop}
    {decode : Json K → Except (LayoutError K) α} {values : List (Json K)} :
    FailsWith kind (decodeEach decode values) ↔
      ∃ front bad back, values = front ++ bad :: back ∧
        (∀ value ∈ front, ∃ answer, decode value = .ok answer) ∧ FailsWith kind (decode bad) := by
  constructor
  · intro fails
    induction values with
    | nil => exact absurd fails not_failsWith_ok
    | cons value rest ih =>
      rw [decodeEach, failsWith_bind] at fails
      rcases fails with here | ⟨first, read, fails⟩
      · exact ⟨[], value, rest, rfl, List.forall_mem_nil _, here⟩
      · rw [failsWith_bind] at fails
        rcases fails with later | ⟨others, -, done⟩
        · obtain ⟨front, bad, back, rfl, before, below⟩ := ih later
          refine ⟨value :: front, bad, back, rfl, ?_, below⟩
          exact List.forall_mem_cons.mpr ⟨⟨first, read⟩, before⟩
        · exact absurd done not_failsWith_pure
  · rintro ⟨front, bad, back, rfl, before, below⟩
    induction front with
    | nil =>
      rw [List.nil_append, decodeEach, failsWith_bind]
      exact .inl below
    | cons value rest ih =>
      obtain ⟨⟨first, read⟩, others⟩ := List.forall_mem_cons.mp before
      rw [List.cons_append, decodeEach, failsWith_bind]
      refine .inr ⟨first, read, ?_⟩
      rw [failsWith_bind]
      exact .inl (ih others)

end Json

/-! ## The order of the members -/

def Json.listed (value : Json K) (key : Text) : Except (LayoutError K) (List (Json K)) := do
  ofField (← ofField (value.member key)).elements

def Split.decodeName (value : Json K) : Except (LayoutError K) (SplitHandle × Direction) := do
  let handle ← SplitHandle.decode (← ofField (value.member Word.handle))
  let direction ← Direction.decode (← ofField (value.member Word.direction))
  return (handle, direction)

variable [Scalar K]

def Container.decodeActive (value : Json K) : Except (LayoutError K) Int :=
  match (value.member Word.activeDock).toOption with
  | none => .ok 0
  | some position => ofField position.toInteger

theorem Split.decodeHead_eq (value : Json K) :
    Split.decodeHead value = (Split.decodeName value >>= fun name =>
      value.listed Word.ratios >>= fun written =>
        Json.decodeEach (fun ratio => ofField ratio.toReal) written >>= fun ratios =>
          pure (name.1, name.2, ratios)) := by
  simp only [Split.decodeHead, Split.decodeName, Json.listed, bind_assoc, pure_bind]

theorem Container.decodeFields_eq (value : Json K) :
    Container.decodeFields value = (value.listed Word.docks >>= fun written =>
      Json.decodeEach Dock.decode written >>= fun docks =>
        Container.decodeActive value >>= fun active => pure (docks, active)) := by
  simp only [Container.decodeFields, Container.decodeActive, Json.listed, bind_assoc]
  cases (value.member Word.activeDock).toOption <;> rfl

namespace Area

theorem decode_of_split {entries : List (Text × Json K)}
    (type : Json.find? Word.type entries = some (.str Word.split)) :
    decode (.obj entries) =
      ((Split.decodeHead (.obj entries)).mapError LayoutError.inSplit >>= fun head =>
        (decodeChildren entries).mapError LayoutError.inSplit >>= fun children =>
          Split.assemble head children >>= fun split => pure split.toArea) := by
  rw [decode]
  simp only [type, if_true]

theorem decode_of_container {entries : List (Text × Json K)}
    (type : Json.find? Word.type entries = some (.str Word.container)) :
    decode (.obj entries) = (Container.decode (.obj entries)).map .container := by
  have other : Word.container ≠ Word.split := by decide
  rw [decode]
  simp only [type, if_neg other, if_true]

def HasKnownType (value : Json K) : Prop :=
  ∃ entries, value = .obj entries ∧
    (Json.find? Word.type entries = some (.str Word.split) ∨
      Json.find? Word.type entries = some (.str Word.container))

theorem decode_of_unknown {value : Json K} (unknown : ¬ HasKnownType value) :
    ∃ other, decode value = .error (.areaData other) ∨ decode value = .error (.areaType other) := by
  cases value with
  | obj entries =>
    cases type : Json.find? Word.type entries with
    | none => exact ⟨.null, .inr (by rw [decode]; simp only [type])⟩
    | some given =>
      refine ⟨given, .inr ?_⟩
      cases given with
      | str name =>
        have noSplit : name ≠ Word.split := by
          rintro rfl
          exact unknown ⟨entries, rfl, .inl type⟩
        have noContainer : name ≠ Word.container := by
          rintro rfl
          exact unknown ⟨entries, rfl, .inr type⟩
        rw [decode]
        simp only [type, if_neg noSplit, if_neg noContainer]
      | _ =>
        rw [decode]
        simp only [type]
  | _ => exact ⟨_, .inl (by rw [decode]; simp)⟩

omit [Scalar K] in
theorem refuseElement_eq_nil {elements : List (Json K)} {areas : List (Area K)}
    (read : refuseElement elements = .ok areas) : areas = [] := by
  cases elements with
  | nil => exact (Except.ok.inj read).symm
  | cons element rest => cases read

theorem decodeElements_eq_nil {value : Json K} {areas : List (Area K)}
    (noItems : ∀ items, value = .arr items → False)
    (read : decodeElements value = .ok areas) : areas = [] := by
  cases value with
  | arr items => exact absurd rfl (noItems items)
  | obj entries => exact refuseElement_eq_nil read
  | str text => exact refuseElement_eq_nil read
  | _ => cases read

theorem decodeChildren_eq_ok {entries : List (Text × Json K)} {areas : List (Area K)}
    (filled : areas ≠ []) :
    decodeChildren entries = .ok areas ↔
      ∃ items, Json.find? Word.children entries = some (.arr items) ∧
        Json.decodeEach decode items = .ok areas := by
  have read : decodeChildren entries =
      (ofField ((Json.obj entries).member Word.children) >>= decodeElements) :=
    decodeChildren_eq entries
  simp only [read, bind_eq_ok, ofField_eq_ok, Json.member_eq_ok]
  constructor
  · rintro ⟨value, ⟨_, same, present⟩, elements⟩
    cases same
    by_cases list : ∃ items, value = .arr items
    · obtain ⟨items, rfl⟩ := list
      rw [decodeElements, decodeItems_eq] at elements
      exact ⟨items, present, elements⟩
    · have none := decodeElements_eq_nil (fun items same => list ⟨items, same⟩) elements
      exact absurd none filled
  · rintro ⟨items, present, each⟩
    refine ⟨_, ⟨entries, rfl, present⟩, ?_⟩
    rw [decodeElements, decodeItems_eq, each]

end Area

end DockLayout
