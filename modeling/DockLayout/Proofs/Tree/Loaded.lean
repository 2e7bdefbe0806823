import DockLayout.Proofs.Tree.Reading
import DockLayout.Proofs.Tree.SoundEdits
import DockLayout.Workspace.Persist

/-!
# Trees that were read

Whatever a layout file holds, an area that is read from it was put together by
the constructor of splits from containers that show one of their docks. So it is
sound as soon as the handles in it count as given out.
-/

set_option autoImplicit false

namespace DockLayout

open Success

variable {K : Type}

namespace Split

variable [Scalar K]

theorem make_eq_ok {children : List (Area K)} {ratios : List K} {direction : Direction}
    {handle : SplitHandle} {rect : Rect K} {split : Split K}
    (made : Split.make children ratios direction handle rect = .ok split) :
    children ≠ [] ∧ children.length = ratios.length ∧
      split = Split.relayout ⟨⟨handle, direction, ratios, rect⟩, children⟩ := by
  rw [Split.make] at made
  split at made
  · cases made
  · rename_i some
    split at made
    · cases made
    · rename_i count
      split at made
      · cases made
      · split at made
        · cases made
        · split at made
          · cases made
          · cases made
            exact ⟨fun none => some (List.isEmpty_iff.mpr none), not_not.mp count, rfl⟩

theorem make_checked {children : List (Area K)} {ratios : List K} {direction : Direction}
    {handle : SplitHandle} {rect : Rect K} {split : Split K}
    (made : Split.make children ratios direction handle rect = .ok split) :
    hasDescent ratios = false ∧ ∃ last, ratios.getLast? = some last ∧ (last == 1) = true := by
  rw [Split.make] at made
  split at made
  · cases made
  · split at made
    · cases made
    · split at made
      · cases made
      · rename_i last present
        split at made
        · cases made
        · rename_i one
          split at made
          · cases made
          · rename_i ascending
            exact ⟨eq_false_of_ne_true ascending, last, present, by simpa using one⟩

theorem make_of_checked {children : List (Area K)} {ratios : List K} {last : K}
    (direction : Direction) (handle : SplitHandle) (rect : Rect K) (filled : children ≠ [])
    (count : children.length = ratios.length) (present : ratios.getLast? = some last)
    (one : (last == 1) = true) (ascending : hasDescent ratios = false) :
    Split.make children ratios direction handle rect =
      .ok (Split.relayout ⟨⟨handle, direction, ratios, rect⟩, children⟩) := by
  have some : children.isEmpty = false := List.isEmpty_eq_false_iff.mpr filled
  rw [Split.make, some, if_neg Bool.false_ne_true, if_neg (not_not.mpr count), present]
  simp only [one, ascending]
  rfl

end Split

/-- The regime admits the ratios of every split that reading can make. -/
def Regime.AdmitsReading [Scalar K] (regime : Regime K) : Prop :=
  ∀ {children : List (Area K)} {ratios : List K} {direction : Direction} {handle : SplitHandle}
    {rect : Rect K} {split : Split K},
    Split.make children (Split.boundedRatios ratios) direction handle rect = .ok split →
    regime.Ratios (Split.boundedRatios ratios)

theorem Regime.any_admitsReading [Scalar K] : (Regime.any : Regime K).AdmitsReading := by
  intro children ratios direction handle rect split made empty
  obtain ⟨some, count, -⟩ := Split.make_eq_ok made
  rw [empty] at count
  exact some (List.length_eq_zero_iff.mp count)

namespace Area

/-! ## Reading the splits -/

section Readings

variable {α : Type} (read : Partition K → α)

def readings (area : Area K) : List α :=
  area.preorder.filterMap fun inner => inner.split?.map fun split => read split.toPartition

@[simp] theorem readings_container (panel : Container K) :
    (container panel).readings read = [] := rfl

@[simp] theorem readings_split (frame : Partition K) (children : List (Area K)) :
    (split frame children).readings read = read frame :: children.flatMap (readings read) := by
  simp only [readings, preorder, preorderEach_eq, List.filterMap_cons, List.filterMap_flatMap]
  rfl

theorem readings_resize [Scalar K] (still : ∀ frame rect, read { frame with rect } = read frame)
    (area : Area K) (rect : Rect K) : (area.resize rect).readings read = area.readings read := by
  induction area generalizing rect with
  | container panel => simp [resize]
  | split frame children ih =>
    rw [resize, readings_split, readings_split, still, flatMap_resizeEach _ ih]

theorem readings_configure (config : Config K) (area : Area K) :
    (area.configure config).readings read = area.readings read := by
  induction area with
  | container panel => rfl
  | split frame children ih =>
    rw [configure, readings_split, readings_split, configureEach_eq, List.flatMap_map]
    exact congrArg _ (List.flatMap_congr ih)

end Readings

/-! ## The handles of the splits -/

def splitHandles (area : Area K) : List SplitHandle := splitHandlesIn area.preorder

theorem splitHandles_eq (area : Area K) : area.splitHandles = area.readings Partition.handle := by
  rw [splitHandles, splitHandlesIn, readings]
  congr
  funext inner
  cases inner <;> rfl

@[simp] theorem splitHandles_container (panel : Container K) :
    (container panel).splitHandles = [] := rfl

@[simp] theorem splitHandles_split (frame : Partition K) (children : List (Area K)) :
    (split frame children).splitHandles = frame.handle :: children.flatMap splitHandles := by
  rw [splitHandles_eq, readings_split]
  exact congrArg _ (List.flatMap_congr fun child _ => (splitHandles_eq child).symm)

variable [Scalar K]

@[simp] theorem splitHandles_resize (area : Area K) (rect : Rect K) :
    (area.resize rect).splitHandles = area.splitHandles := by
  rw [splitHandles_eq, readings_resize Partition.handle (fun _ _ => rfl), splitHandles_eq]

theorem Sound.splitHandles_lt {regime : Regime K} {config : Config K} {next : Int}
    {area : Area K} (sound : area.Sound regime config next) :
    ∀ handle ∈ area.splitHandles, handle.value < next := by
  induction sound with
  | container shown header edge room => simp
  | @split frame children ratios room placed known each ih =>
    intro handle listed
    rw [splitHandles_split] at listed
    rcases List.mem_cons.mp listed with rfl | below
    · exact known
    · obtain ⟨child, present, inside⟩ := List.mem_flatMap.mp below
      exact ih child present handle inside

/-! ## Reading -/

/-- Put together by the constructors that reading uses. -/
inductive Assembled : Area K → Prop
  | container {docks : List (Dock K)} {active : Nat} (shown : active < docks.length) :
      Assembled (.container {
        docks, active, rect := .zero
        headerHeight := standardHeaderHeight K, dropEdgeFraction := standardEdgeFraction K })
  | split {children : List (Area K)} {ratios : List K} {direction : Direction}
      {handle : SplitHandle} {split : Split K}
      (made : Split.make children (Split.boundedRatios ratios) direction handle .zero = .ok split)
      (each : ∀ child ∈ children, Assembled child) : Assembled split.toArea

theorem container_assembled {value : Json K} {panel : Container K}
    (read : Container.decode value = .ok panel) : (Area.container panel).Assembled := by
  rw [Container.decode] at read
  obtain ⟨⟨docks, active⟩, -, read⟩ := bind_eq_ok.mp read
  simp only at read
  split at read
  · cases read
  · split at read
    · rename_i valid
      cases read
      exact .container (by omega)
    · cases read

theorem decode_assembled (value : Json K) :
    ∀ area, decode value = .ok area → area.Assembled := by
  induction value using Json.induct_items with
  | step value each =>
  intro area read
  by_cases known : HasKnownType value
  case neg =>
    obtain ⟨other, refused | refused⟩ := decode_of_unknown known
    · cases refused.symm.trans read
    · cases refused.symm.trans read
  obtain ⟨entries, rfl, type | type⟩ := known
  · rw [decode_of_split type] at read
    obtain ⟨head, -, read⟩ := bind_eq_ok.mp read
    obtain ⟨children, below, read⟩ := bind_eq_ok.mp read
    obtain ⟨split, made, read⟩ := bind_eq_ok.mp read
    obtain rfl := pure_eq_ok.mp read
    have filled : children ≠ [] := (Split.make_eq_ok made).1
    obtain ⟨items, written, listed⟩ := (decodeChildren_eq_ok filled).mp (mapError_eq_ok.mp below)
    refine .split made fun child present => ?_
    obtain ⟨item, member, here⟩ := Json.exists_mem_of_decodeEach listed present
    exact each entries _ items rfl written item member child here
  · rw [decode_of_container type] at read
    obtain ⟨panel, found, rfl⟩ := map_eq_ok.mp read
    exact container_assembled found

theorem Assembled.rect {area : Area K} (assembled : area.Assembled) : area.rect = .zero := by
  cases assembled with
  | container shown => rfl
  | split made each =>
    obtain ⟨-, -, rfl⟩ := Split.make_eq_ok made
    rfl

theorem Assembled.sound {regime : Regime K} (reading : regime.AdmitsReading) {area : Area K}
    (assembled : area.Assembled) {next : Int}
    (known : ∀ handle ∈ area.splitHandles, handle.value < next) :
    area.Sound regime Config.standard next := by
  induction assembled with
  | container shown => exact .container shown rfl rfl regime.room_zero
  | @split children ratios direction handle split made each ih =>
    have admitted := reading made
    obtain ⟨some, count, rfl⟩ := Split.make_eq_ok made
    have handles : (Split.toArea (Split.relayout
        ⟨⟨handle, direction, Split.boundedRatios ratios, .zero⟩, children⟩)).splitHandles =
          handle :: children.flatMap splitHandles :=
      (splitHandles_resize (.split ⟨handle, direction, Split.boundedRatios ratios, .zero⟩
        children) .zero).trans (splitHandles_split _ _)
    rw [handles] at known
    refine Split.Layable.relayout
      ⟨admitted, regime.room_zero, count, known handle List.mem_cons_self, ?_⟩
    · intro child listed
      refine ih child listed fun inner inside => known inner (List.mem_cons_of_mem handle ?_)
      exact List.mem_flatMap.mpr ⟨child, listed, inside⟩

/-! ## Settings -/

omit [Scalar K] in
theorem rect_configure (config : Config K) (area : Area K) :
    (area.configure config).rect = area.rect := by
  cases area <;> rfl

omit [Scalar K] in
theorem splitHandles_configure (config : Config K) (area : Area K) :
    (area.configure config).splitHandles = area.splitHandles := by
  rw [splitHandles_eq, readings_configure, splitHandles_eq]

theorem Sound.configure {regime : Regime K} {old : Config K} {next : Int} {area : Area K}
    (sound : area.Sound regime old next) (config : Config K) :
    (area.configure config).Sound regime config next := by
  induction sound with
  | container shown header edge room => exact .container shown rfl rfl room
  | split ratios room placed known each ih =>
    rw [Area.configure, configureEach_eq]
    refine .split ratios room ?_ known ?_
    · rw [List.map_map, ← placed]
      exact List.map_congr_left fun child _ => rect_configure config child
    · intro child listed
      obtain ⟨origin, present, rfl⟩ := List.mem_map.mp listed
      exact ih origin present

end Area

end DockLayout
