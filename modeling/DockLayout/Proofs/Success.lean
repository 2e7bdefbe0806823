/-!
# Success of computations that may fail

A sequence of computations succeeds exactly when each of them does, and neither
a change of the answer nor one of the error makes a failure a success. A sequence
fails where the first of its computations fails.
-/

set_option autoImplicit false

namespace DockLayout.Success

variable {ε φ α β : Type}

theorem bind_eq_ok {first : Except ε α} {next : α → Except ε β} {answer : β} :
    (first >>= next) = .ok answer ↔ ∃ middle, first = .ok middle ∧ next middle = .ok answer := by
  cases first with
  | error error => simp [bind, Except.bind]
  | ok middle => simp [bind, Except.bind]

theorem mapError_eq_ok {first : Except ε α} {change : ε → φ} {answer : α} :
    first.mapError change = .ok answer ↔ first = .ok answer := by
  cases first with
  | error error => exact iff_of_false nofun nofun
  | ok middle =>
    constructor
    · intro same
      exact congrArg Except.ok (Except.ok.inj same)
    · intro same
      exact congrArg Except.ok (Except.ok.inj same)

theorem map_eq_ok {first : Except ε α} {change : α → β} {answer : β} :
    first.map change = .ok answer ↔ ∃ middle, first = .ok middle ∧ change middle = answer := by
  cases first with
  | error error => simp [Except.map]
  | ok middle => simp [Except.map]

theorem pure_eq_ok {given answer : α} :
    (pure given : Except ε α) = .ok answer ↔ given = answer :=
  Except.ok.injEq given answer ▸ Iff.rfl

theorem toOption_eq_some {result : Except ε α} {answer : α} :
    result.toOption = some answer ↔ result = .ok answer := by
  cases result with
  | error error => exact iff_of_false nofun nofun
  | ok given => exact ⟨fun same => congrArg Except.ok (Option.some.inj same),
      fun same => congrArg some (Except.ok.inj same)⟩

/-! ## Failure -/

def FailsWith (kind : ε → Prop) (result : Except ε α) : Prop :=
  ∃ error, result = .error error ∧ kind error

@[simp] theorem failsWith_error {kind : ε → Prop} {error : ε} :
    FailsWith kind (.error error : Except ε α) ↔ kind error :=
  ⟨fun ⟨_, same, holds⟩ => Except.error.inj same ▸ holds, fun holds => ⟨error, rfl, holds⟩⟩

@[simp] theorem not_failsWith_ok {kind : ε → Prop} {answer : α} :
    ¬ FailsWith kind (.ok answer : Except ε α) :=
  fun ⟨_, same, _⟩ => nomatch same

@[simp] theorem not_failsWith_pure {kind : ε → Prop} {answer : α} :
    ¬ FailsWith kind (pure answer : Except ε α) :=
  not_failsWith_ok

theorem failsWith_bind {kind : ε → Prop} {first : Except ε α} {next : α → Except ε β} :
    FailsWith kind (first >>= next) ↔
      FailsWith kind first ∨ ∃ middle, first = .ok middle ∧ FailsWith kind (next middle) := by
  cases first with
  | error error => simp [bind, Except.bind]
  | ok middle => simp [bind, Except.bind]

theorem failsWith_mapError {kind : φ → Prop} {result : Except ε α} {change : ε → φ} :
    FailsWith kind (result.mapError change) ↔
      FailsWith (fun error => kind (change error)) result := by
  cases result with
  | error error =>
    have here : (Except.error error : Except ε α).mapError change = .error (change error) := rfl
    rw [here, failsWith_error, failsWith_error]
  | ok answer => exact iff_of_false not_failsWith_ok not_failsWith_ok

theorem failsWith_map {kind : ε → Prop} {result : Except ε α} {change : α → β} :
    FailsWith kind (result.map change) ↔ FailsWith kind result := by
  cases result with
  | error error => exact failsWith_error.trans failsWith_error.symm
  | ok answer => exact iff_of_false not_failsWith_ok not_failsWith_ok

theorem FailsWith.mono {kind other : ε → Prop} {result : Except ε α}
    (fails : FailsWith kind result) (wider : ∀ error, kind error → other error) :
    FailsWith other result := by
  obtain ⟨error, same, holds⟩ := fails
  exact ⟨error, same, wider error holds⟩

theorem not_failsWith_bind {kind : ε → Prop} {first : Except ε α} {next : α → Except ε β}
    (here : ¬ FailsWith kind first) (later : ∀ middle, ¬ FailsWith kind (next middle)) :
    ¬ FailsWith kind (first >>= next) := by
  rw [failsWith_bind]
  rintro (fails | ⟨middle, -, fails⟩)
  · exact here fails
  · exact later middle fails

end DockLayout.Success
