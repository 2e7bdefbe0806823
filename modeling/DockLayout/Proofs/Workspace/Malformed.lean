import DockLayout.Proofs.Tree.Oversized
import DockLayout.Workspace.Persist

/-!
# Layouts that cannot be read

Any value can be given to a workspace to be read. It becomes a workspace, or it is
refused without an event, and then the error says that a value is invalid, whatever was
missing or of the wrong shape below. The exception is a number that is too large, for
which the conversion has an error of its own.
-/

set_option autoImplicit false

namespace DockLayout.Workspace

open LayoutError (TooLarge)
open Success

variable {K : Type} [Scalar K]

theorem decode_eq_error_iff {value : Json K} {rect : Option (Rect K)} {config : Config K}
    {error : LayoutError K} :
    (decode value rect config).result = .error error ↔
      (rootData value >>= decodeRoot) = .error error := by
  change _ ↔ (rootData value).bind decodeRoot = _
  rw [decode]
  cases (rootData value).bind decodeRoot with
  | error cause =>
    constructor
    · intro same
      exact congrArg Except.error (Except.error.inj same)
    · intro same
      exact congrArg Except.error (Except.error.inj same)
  | ok root => cases rect <;> exact iff_of_false nofun nofun

theorem events_of_error {value : Json K} {rect : Option (Rect K)} {config : Config K}
    {error : LayoutError K} (failed : (decode value rect config).result = .error error) :
    (decode value rect config).events = [] := by
  have refused := decode_eq_error_iff.mp failed
  change (rootData value).bind decodeRoot = _ at refused
  rw [decode, refused]

theorem category_of_rootData {value : Json K} {error : LayoutError K}
    (failed : rootData value = .error error) : error.category = .invalidValue := by
  cases value with
  | obj entries =>
    simp only [rootData] at failed
    split at failed
    · cases failed
    · cases failed
      rfl
  | _ => cases failed; rfl

theorem failsWith_decodeRoot {kind : LayoutError K → Prop} {data : Option (Json K)} :
    FailsWith kind (decodeRoot data) ↔ ∃ root ∈ data, FailsWith kind (Area.decode root) := by
  cases data with
  | none => exact iff_of_false not_failsWith_ok nofun
  | some root =>
    rw [decodeRoot, failsWith_map]
    exact ⟨fun fails => ⟨root, rfl, fails⟩, fun ⟨_, same, fails⟩ => Option.some.inj same ▸ fails⟩

theorem not_unreported (value : Json K) :
    ¬ FailsWith (fun error => ¬ error.Reported) (rootData value >>= decodeRoot) := by
  refine not_failsWith_bind ?_ fun data => ?_
  · rintro ⟨error, failed, odd⟩
    exact odd (.inl (category_of_rootData failed))
  · rw [failsWith_decodeRoot]
    rintro ⟨root, -, error, failed, odd⟩
    exact odd (Area.decode_reported failed)

theorem tooLarge_iff_oversized (value : Json K) :
    FailsWith TooLarge (rootData value >>= decodeRoot) ↔
      ∃ data, rootData value = .ok (some data) ∧ Oversized data := by
  have shape : ¬ FailsWith TooLarge (rootData value) := by
    rintro ⟨error, failed, large⟩
    exact LayoutError.not_tooLarge_of_invalid (category_of_rootData failed) large
  rw [failsWith_bind, or_iff_right shape]
  constructor
  · rintro ⟨data, read, fails⟩
    obtain ⟨root, rfl, below⟩ := failsWith_decodeRoot.mp fails
    exact ⟨root, read, (Area.tooLarge_iff_oversized root).mp below⟩
  · rintro ⟨root, read, oversized⟩
    have fails := (Area.tooLarge_iff_oversized root).mpr oversized
    exact ⟨some root, read, failsWith_decodeRoot.mpr ⟨root, rfl, fails⟩⟩

/-- Reading a layout fails with an error that says the value is invalid, or that a
number is too large, and then nothing has been published. A number is too large exactly
when reading comes upon a ratio beyond the scalars, or an infinity as the position of
an active tab, before anything else is wrong. -/
theorem malformed_layouts_are_reported (value : Json K) (rect : Option (Rect K))
    (config : Config K) :
    (∀ error, (decode value rect config).result = .error error →
      (decode value rect config).events = [] ∧
        (error.category = .invalidValue ∨ error.category = .numberTooLarge)) ∧
    ((∃ error, (decode value rect config).result = .error error ∧
        error.category = .numberTooLarge) ↔
      ∃ data, rootData value = .ok (some data) ∧ Oversized data) := by
  constructor
  · intro error failed
    refine ⟨events_of_error failed, by_contra fun odd => ?_⟩
    exact not_unreported value ⟨error, decode_eq_error_iff.mp failed, odd⟩
  · rw [← tooLarge_iff_oversized]
    exact exists_congr fun error => and_congr_left fun _ => decode_eq_error_iff

def endlessTab : Json Float :=
  .obj [
    (Word.version, .int 1),
    (Word.root, .obj [
      (Word.type, .str Word.container),
      (Word.activeDock, .real (Double.infinity false)),
      (Word.docks, .arr [.obj [(Word.handle, .int 1), (Word.pluginName, .null)]])])]

def immenseRatio : Json Float :=
  .obj [
    (Word.version, .int 1),
    (Word.root, .obj [
      (Word.type, .str Word.split),
      (Word.handle, .int 1),
      (Word.direction, .str Direction.vertical.name),
      (Word.ratios, .arr [.int (Int.pow 16 256), .int 1])])]

/-- Both are refused for an error other than that of an invalid value. -/
theorem malformed_layouts_are_reported_of_oversized :
    ∀ value ∈ [endlessTab, immenseRatio], ∃ error,
      (decode value none .standard).result = .error error ∧
        (decode value none .standard).events = [] ∧ error.category ≠ .invalidValue := by
  have beyond : Scalar.ofInt? (Int.pow 16 256) = (none : Option Float) := by decide +kernel
  have oversized : ∀ value ∈ [endlessTab, immenseRatio],
      ∃ data, rootData value = .ok (some data) ∧ Oversized data := by
    rw [List.forall_mem_cons, List.forall_mem_singleton]
    refine ⟨⟨_, rfl, ?_⟩, ⟨_, rfl, ?_⟩⟩
    · exact .active rfl rfl rfl rfl rfl
    · exact .ratio rfl rfl rfl (List.forall_mem_nil _) beyond
  intro value listed
  have reported := malformed_layouts_are_reported value none .standard
  obtain ⟨error, failed, large⟩ := reported.2.mpr (oversized value listed)
  refine ⟨error, failed, (reported.1 error failed).1, fun invalid => ?_⟩
  exact LayoutError.not_tooLarge_of_invalid invalid large

end DockLayout.Workspace
