import DockLayout.Proofs.Tree.Closing

/-!
# Edits of resized trees

A tree that is handed another rectangle stays the same tree, and an edit changes it
in the same way before and after. Only a merge reads rectangles. Over the rationals
it takes from them the proportions that the ratios say, or that there is no extent
at all, and neither depends on the size of the workspace.
-/

set_option autoImplicit false

namespace DockLayout

variable {K : Type} [Scalar K]

/-! ## Areas without their rectangles -/

namespace Area

def unplaced (area : Area K) : Area K := area.resize .zero

@[simp] theorem unplaced_resize (area : Area K) (rect : Rect K) :
    (area.resize rect).unplaced = area.unplaced :=
  area.resize_resize rect .zero

@[simp] theorem resize_unplaced (area : Area K) (rect : Rect K) :
    area.unplaced.resize rect = area.resize rect :=
  area.resize_resize .zero rect

@[simp] theorem map_unplaced_resizeEach (areas : List (Area K)) (rects : List (Rect K)) :
    (resizeEach areas rects).map unplaced = areas.map unplaced :=
  map_resizeEach unplaced (fun area _ => unplaced_resize area) rects

theorem resizeEach_congr {first second : List (Area K)} {rects : List (Rect K)}
    (same : first.map unplaced = second.map unplaced) (enough : first.length ≤ rects.length) :
    resizeEach first rects = resizeEach second rects := by
  induction first generalizing second rects with
  | nil =>
    rw [List.map_nil, eq_comm, List.map_eq_nil_iff] at same
    rw [same]
  | cons area rest ih =>
    cases second with
    | nil => cases same
    | cons other others =>
      obtain ⟨here, later⟩ := List.cons.inj same
      cases rects with
      | nil => simp at enough
      | cons rect rects =>
        have placed : area.resize rect = other.resize rect := by
          rw [← area.resize_unplaced, here, other.resize_unplaced]
        rw [resizeEach, resizeEach, placed, ih later (Nat.le_of_succ_le_succ enough)]

theorem resizeEach_set (areas : List (Area K)) {rects : List (Rect K)} {index : Nat}
    {part : Rect K} (given : rects[index]? = some part) (area : Area K) :
    (resizeEach areas rects).set index (area.resize part) =
      resizeEach (areas.set index area) rects := by
  induction areas generalizing rects index with
  | nil => rfl
  | cons first rest ih =>
    cases rects with
    | nil => cases given
    | cons rect others =>
      cases index with
      | zero =>
        obtain rfl := Option.some.inj given
        rfl
      | succ index =>
        have later : others[index]? = some part := given
        rw [resizeEach, List.set_cons_succ, List.set_cons_succ, resizeEach, ih later]

theorem getElem?_resizeEach {areas : List (Area K)} {rects : List (Rect K)} {index : Nat}
    {area : Area K} {part : Rect K} (present : areas[index]? = some area)
    (given : rects[index]? = some part) :
    (resizeEach areas rects)[index]? = some (area.resize part) := by
  induction areas generalizing rects index with
  | nil => cases present
  | cons first rest ih =>
    cases rects with
    | nil => cases given
    | cons rect others =>
      cases index with
      | zero =>
        obtain rfl := Option.some.inj present
        obtain rfl := Option.some.inj given
        rfl
      | succ index => exact ih present given

end Area

namespace Split

/-- Only the last rectangle that a split is handed counts, and not where its children
have been. -/
theorem relayout_resize (s : Split K) {children others : List (Area K)} {ratios : List K}
    (same : children.map Area.unplaced = others.map Area.unplaced)
    (count : children.length = ratios.length) (rect : Rect K) :
    relayout { s.resize rect with children, ratios } =
      (relayout { s with children := others, ratios }).resize rect := by
  have enough : children.length ≤ (rect.cut s.direction ratios).length := by
    rw [count, Rect.length_cut]
  have again : children.map Area.unplaced =
      (Area.resizeEach others (s.rect.cut s.direction ratios)).map Area.unplaced := by
    rw [Area.map_unplaced_resizeEach, same]
  exact congrArg (fun placed => { s with children := placed, ratios, rect })
    (Area.resizeEach_congr again enough)

theorem pair_resize (direction : Direction) (share : K) (handle : SplitHandle)
    (rect part : Rect K) {first second firstAfter secondAfter : Area K}
    (same : firstAfter.unplaced = first.unplaced) (also : secondAfter.unplaced = second.unplaced) :
    (pair direction share handle part firstAfter secondAfter).toArea =
      (pair direction share handle rect first second).toArea.resize part := by
  have unchanged : [firstAfter, secondAfter].map Area.unplaced =
      [first, second].map Area.unplaced := by
    rw [List.map_cons, List.map_singleton, same, also]
    rfl
  have count : [firstAfter, secondAfter].length = [bounded share, 1].length := rfl
  exact congrArg toArea (relayout_resize
    ⟨⟨handle, direction, [bounded share, 1], rect⟩, [first, second]⟩ unchanged count part)

end Split

/-! ## Routes in a resized tree -/

namespace Step

def resize (step : Step K) (rect : Rect K) : Step K := ⟨step.split.resize rect, step.index⟩

def part (step : Step K) (rect : Rect K) : Rect K :=
  (rect.cut step.split.direction step.split.ratios).getD step.index .zero

end Step

namespace Path

def resize : Path K → Rect K → Path K
  | [], _ => []
  | step :: rest, rect => step.resize rect :: resize rest (step.part rect)

def part : Path K → Rect K → Rect K
  | [], rect => rect
  | step :: rest, rect => part rest (step.part rect)

end Path

section Routes

variable {regime : Regime K} {config : Config K} {next : Int} {step : Step K} {child : Area K}

theorem Step.part_given (present : step.split.children[step.index]? = some child)
    (sound : step.split.toArea.Sound regime config next) (rect : Rect K) :
    (rect.cut step.split.direction step.split.ratios)[step.index]? = some (step.part rect) := by
  have inside := Path.Leads.index_lt present
  have count := (Split.Layable.of_sound sound).count
  rw [Step.part, List.getD_eq_getElem?_getD, List.getElem?_eq_getElem, Option.getD_some]
  rw [Rect.length_cut]
  omega

theorem Step.part_rect (present : step.split.children[step.index]? = some child)
    (sound : step.split.toArea.Sound regime config next) :
    step.part step.split.rect = child.rect := by
  have given := Step.part_given present sound step.split.rect
  rw [← sound.placed, List.getElem?_map, present] at given
  exact (Option.some.inj given).symm

theorem Step.put_resize (present : step.split.children[step.index]? = some child)
    (sound : step.split.toArea.Sound regime config next) (rect : Rect K) (new : Area K) :
    (step.resize rect).put (new.resize (step.part rect)) = (step.put new).resize rect := by
  have given := Step.part_given present sound rect
  have placed := Area.resizeEach_set step.split.children given new
  rw [Step.put, Step.put, Area.resize]
  exact congrArg (Area.split { step.split.toPartition with rect }) placed

theorem Step.map_unplaced (step : Step K) (rect : Rect K) :
    (step.resize rect).split.children.map Area.unplaced =
      step.split.children.map Area.unplaced :=
  Area.map_unplaced_resizeEach ..

theorem Step.length_resize (step : Step K) (rect : Rect K) :
    (step.resize rect).split.children.length = step.split.children.length :=
  Area.length_resizeEach ..

theorem Step.replaceChild_resize (present : step.split.children[step.index]? = some child)
    (sound : step.split.toArea.Sound regime config next) (rect : Rect K) {new other : Area K}
    (same : new.unplaced = other.unplaced) :
    ((step.resize rect).split.replaceChild step.index new).state =
      (step.split.replaceChild step.index other).state.resize rect := by
  have inside := Path.Leads.index_lt present
  have insideAfter : step.index < (step.resize rect).split.children.length := by
    rwa [Step.length_resize]
  rw [Split.replaceChild_state _ insideAfter, Split.replaceChild_state _ inside]
  have unchanged : ((step.resize rect).split.children.set step.index new).map Area.unplaced =
      (step.split.children.set step.index other).map Area.unplaced := by
    rw [List.map_set, List.map_set, Step.map_unplaced, same]
  have count : ((step.resize rect).split.children.set step.index new).length =
      step.split.ratios.length := by
    rw [List.length_set, Step.length_resize]
    exact (Split.Layable.of_sound sound).count
  exact step.split.relayout_resize unchanged count rect

namespace Path.Leads

variable {path : Path K} {root target : Area K}

theorem put_resize (leads : path.Leads root target) (sound : root.Sound regime config next)
    (rect : Rect K) (new : Area K) :
    (path.resize rect).put (new.resize (path.part rect)) = (path.put new).resize rect := by
  induction leads generalizing rect with
  | here area => rfl
  | down present onward ih =>
    have below := sound.child (member present)
    rw [resize, put_cons, part, ih below, Step.put_resize present sound, put_cons]

theorem settle_resize (leads : path.Leads root target) (sound : root.Sound regime config next)
    (rect : Rect K) (new : Area K) :
    (path.resize rect).settle (new.resize (path.part rect)) = (path.settle new).resize rect := by
  induction leads generalizing rect with
  | here area => rfl
  | @down step rest child target present onward ih =>
    have below := sound.child (member present)
    cases rest with
    | nil =>
      have placed := Step.replaceChild_resize present sound rect
        (new.unplaced_resize (step.part rect))
      exact congrArg Split.toArea placed
    | cons following rest =>
      have onward := ih below (step.part rect)
      rw [resize, part, settle, settle]
      · rw [onward, Step.put_resize present sound]
      · simp
      · simp [resize]

end Path.Leads

end Routes

/-! ## The search by dock -/

def Path.resizeFound (rect : Rect K) (found : Path K × Container K) : Path K × Container K :=
  (found.1.resize rect, { found.2 with rect := found.1.part rect })

namespace Area

theorem locateIn_resizeEach {handle : DockHandle} {children : List (Area K)}
    {rects : List (Rect K)} (count : children.length = rects.length)
    (each : ∀ child ∈ children, ∀ rect,
      (child.resize rect).locate? handle = (child.locate? handle).map (Path.resizeFound rect))
    (start : Nat) :
    locateIn handle (resizeEach children rects) start =
      (locateIn handle children start).map fun found =>
        (found.1, Path.resizeFound (rects.getD (found.1 - start) .zero) found.2) := by
  induction children generalizing rects start with
  | nil => rfl
  | cons child rest ih =>
    cases rects with
    | nil => cases count
    | cons rect others =>
      have here := each child List.mem_cons_self rect
      have later := ih (Nat.succ.inj count)
        (fun other listed => each other (List.mem_cons_of_mem child listed)) (start + 1)
      rw [resizeEach, locateIn, locateIn, here, later]
      cases found : child.locate? handle with
      | some entry => simp [Path.resizeFound]
      | none =>
        simp only [Option.map_none]
        cases search : locateIn handle rest (start + 1) with
        | none => rfl
        | some entry =>
          obtain ⟨index, path, panel⟩ := entry
          obtain ⟨position, -, rfl, -⟩ := locateIn_eq_some search
          have shift : start + 1 + position - start = position + 1 := by omega
          have rest : start + 1 + position - (start + 1) = position := by omega
          simp only [Option.map_some, shift, rest, List.getD_cons_succ]

/-- The same container is found on the same way. -/
theorem Sound.locate?_resize {regime : Regime K} {config : Config K} {next : Int}
    {area : Area K} (sound : area.Sound regime config next) (handle : DockHandle)
    (rect : Rect K) :
    (area.resize rect).locate? handle = (area.locate? handle).map (Path.resizeFound rect) := by
  induction sound generalizing rect with
  | @container panel shown header edge room =>
    have same : ({ panel with rect } : Container K).hasDock handle = panel.hasDock handle := rfl
    rw [Area.resize, locate?, locate?, same]
    by_cases holds : panel.hasDock handle = true
    · rw [if_pos holds, if_pos holds]
      rfl
    · rw [if_neg holds, if_neg holds]
      rfl
  | @split frame children ratios room placed known each ih =>
    have count : children.length = (rect.cut frame.direction frame.ratios).length := by
      have lengths := congrArg List.length placed
      rwa [List.length_map, Rect.length_cut, ← rect.length_cut frame.direction] at lengths
    rw [Area.resize, locate?, locate?, locateIn_resizeEach count ih 0]
    cases locateIn handle children 0 with
    | none => rfl
    | some entry => rfl

end Area

/-! ## Rectangles of similar size -/

namespace Rect

/-- Neither rectangle is of negative size, and both have an extent along the same
axes. -/
structure Similar (r s : Rect ℚ) : Prop where
  nonneg : r.Nonneg
  otherNonneg : s.Nonneg
  flat : ∀ axis, r.extent axis = 0 ↔ s.extent axis = 0

theorem Similar.of_pos {r s : Rect ℚ} (positive : ∀ axis, 0 < r.extent axis)
    (otherPositive : ∀ axis, 0 < s.extent axis) : r.Similar s where
  nonneg := fun axis => (positive axis).le
  otherNonneg := fun axis => (otherPositive axis).le
  flat := fun axis => iff_of_false (positive axis).ne' (otherPositive axis).ne'

theorem flat_slab {r s : Rect ℚ} (flat : ∀ axis, r.extent axis = 0 ↔ s.extent axis = 0)
    (direction : Direction) (start span : ℚ) (axis : Direction) :
    (r.slab direction start span).extent axis = 0 ↔
      (s.slab direction start span).extent axis = 0 := by
  have along : (r.slab direction start span).extent direction = 0 ↔
      (s.slab direction start span).extent direction = 0 := by
    rw [extent_slab, extent_slab, mul_eq_zero, mul_eq_zero, flat]
  have across : (r.slab direction start span).extent direction.flip = 0 ↔
      (s.slab direction start span).extent direction.flip = 0 := by
    rw [extent_slab_flip, extent_slab_flip, flat]
  cases direction <;> cases axis
  · exact along
  · exact across
  · exact across
  · exact along

theorem flat_cutFrom {r s : Rect ℚ} (flat : ∀ axis, r.extent axis = 0 ↔ s.extent axis = 0)
    {direction : Direction} {ratios : List ℚ} {previous : ℚ} {index : Nat} {part other : Rect ℚ}
    (given : (r.cutFrom direction previous ratios)[index]? = some part)
    (otherGiven : (s.cutFrom direction previous ratios)[index]? = some other)
    (axis : Direction) : part.extent axis = 0 ↔ other.extent axis = 0 := by
  induction ratios generalizing previous index with
  | nil => cases given
  | cons ratio rest ih =>
    cases index with
    | zero =>
      obtain rfl := Option.some.inj given
      obtain rfl := Option.some.inj otherGiven
      exact flat_slab flat direction previous _ axis
    | succ index => exact ih given otherGiven

end Rect

section Merging

variable {config : Config ℚ} {next : Int} {step : Step ℚ} {child : Area ℚ}

theorem Rect.Similar.part {rect : Rect ℚ} (similar : step.split.rect.Similar rect)
    (present : step.split.children[step.index]? = some child)
    (sound : step.split.toArea.Sound Regime.ordered config next) :
    child.rect.Similar (step.part rect) := by
  have given := Step.part_given present sound step.split.rect
  have otherGiven := Step.part_given present sound rect
  rw [Step.part_rect present sound] at given
  refine ⟨sound.nonneg_child similar.nonneg (Path.Leads.member present), ?_,
    Rect.flat_cutFrom similar.flat given otherGiven⟩
  have ordered := (Split.Layable.of_sound sound).ratios
  exact similar.otherNonneg.of_cutFrom (Exact.pairwise_zero ordered)
    (List.mem_of_getElem? otherGiven)

/-! ## Merging -/

namespace Split

theorem weights_of_flat {inner : Split ℚ} (ordered : Ordered inner.ratios)
    (placed : inner.children.map Area.rect = inner.rect.cut inner.direction inner.ratios)
    (flat : inner.rect.extent inner.direction = 0) :
    weights inner.direction inner.children =
      (List.replicate inner.children.length 1, (inner.children.length : ℚ)) := by
  rw [weights, total_extents ordered placed, flat, if_pos (le_refl 0)]

/-- The ends of areas that are spliced in do not depend on the size of their split. -/
theorem ends_resize {s inner : Split ℚ} {index : Nat} (ordered : Ordered s.ratios)
    (inside : index < s.ratios.length)
    (sound : inner.toArea.Sound Regime.ordered config next)
    (aligned : inner.direction = s.direction) {rect : Rect ℚ}
    (similar : inner.rect.Similar rect) :
    s.ends index (inner.resize rect).children = s.ends index inner.children := by
  have innerOrdered := (Layable.of_sound sound).ratios
  have placed := sound.placed
  have count : inner.children.length = (rect.cut inner.direction inner.ratios).length := by
    rw [Rect.length_cut]
    exact sound.count
  have placedAgain : (inner.resize rect).children.map Area.rect =
      rect.cut inner.direction inner.ratios := Area.map_rect_resizeEach count
  rcases (similar.nonneg inner.direction).lt_or_eq with positive | flat
  · have positiveAgain : 0 < rect.extent inner.direction :=
      lt_of_le_of_ne (similar.otherNonneg _)
        fun flat => positive.ne' ((similar.flat _).mpr flat.symm)
    rw [ends_of_pos ordered inside innerOrdered aligned placed positive]
    exact @ends_of_pos s (inner.resize rect) index ordered inside innerOrdered aligned placedAgain
      positiveAgain
  · have flatAgain : rect.extent inner.direction = 0 := (similar.flat _).mp flat.symm
    have before := weights_of_flat innerOrdered placed flat.symm
    have after := @weights_of_flat (inner.resize rect) innerOrdered placedAgain flatAgain
    have same : (inner.resize rect).children.length = inner.children.length :=
      Area.length_resizeEach ..
    have weighed : weights inner.direction (inner.resize rect).children =
        weights inner.direction inner.children := by
      rw [before, ← same]
      exact after
    rw [ends, ends, ← aligned, weighed]

end Split

namespace Step

theorem removeChild_resize (present : step.split.children[step.index]? = some child)
    (sound : step.split.toArea.Sound Regime.ordered config next)
    (several : step.split.children.length ≠ 1) (rect : Rect ℚ) :
    ((step.resize rect).split.removeChild step.index).state =
      (step.split.removeChild step.index).state.resize rect := by
  have inside := Path.Leads.index_lt present
  have insideAfter : step.index < (step.resize rect).split.children.length := by
    rwa [length_resize]
  have severalAfter : (step.resize rect).split.children.length ≠ 1 := by
    rwa [length_resize]
  have unchanged : ((step.resize rect).split.children.eraseIdx step.index).map Area.unplaced =
      (step.split.children.eraseIdx step.index).map Area.unplaced := by
    rw [← List.eraseIdx_map, map_unplaced, List.eraseIdx_map]
  have count : ((step.resize rect).split.children.eraseIdx step.index).length =
      (Split.ratiosWithout step.split.ratios step.index).length := by
    have without := (layable_without present sound several).count
    have lengths := congrArg List.length unchanged
    rw [List.length_map, List.length_map] at lengths
    exact lengths.trans without
  rw [Split.removeChild_state _ insideAfter severalAfter,
    Split.removeChild_state _ inside several]
  exact step.split.relayout_resize unchanged count rect

theorem expandChild_resize {inner : Split ℚ}
    (present : step.split.children[step.index]? = some child)
    (sound : step.split.toArea.Sound Regime.ordered config next)
    (survives : inner.toArea.Sound Regime.ordered config next)
    (aligned : inner.direction = step.split.direction) (rect : Rect ℚ) {part : Rect ℚ}
    (similar : inner.rect.Similar part) :
    ((step.resize rect).split.expandChild step.index (inner.resize part).children).state =
      (step.split.expandChild step.index inner.children).state.resize rect := by
  have inside := Path.Leads.index_lt present
  have insideAfter : step.index < (step.resize rect).split.children.length := by
    rwa [length_resize]
  have some : inner.children ≠ [] := survives.filled.children_ne_nil
  have innerCount : (inner.resize part).children.length = inner.children.length :=
    Area.length_resizeEach ..
  have someAfter : (inner.resize part).children ≠ [] := by
    rwa [← List.length_pos_iff, innerCount, List.length_pos_iff]
  have within : step.index < step.split.ratios.length := by
    rwa [← (Split.Layable.of_sound sound).count]
  have ends := Split.ends_resize (Split.Layable.of_sound sound).ratios within survives aligned
    similar
  have unchanged : ((step.resize rect).split.children.take step.index ++
      (inner.resize part).children ++
        (step.resize rect).split.children.drop (step.index + 1)).map Area.unplaced =
      (step.split.children.take step.index ++ inner.children ++
        step.split.children.drop (step.index + 1)).map Area.unplaced := by
    have innerSame : (inner.resize part).children.map Area.unplaced =
        inner.children.map Area.unplaced := Area.map_unplaced_resizeEach ..
    simp only [List.map_append, List.map_take, List.map_drop, map_unplaced, innerSame]
  have count := (layable_spliced inner present sound survives aligned).count
  have lengths := congrArg List.length unchanged
  rw [List.length_map, List.length_map] at lengths
  rw [Split.expandChild_state _ insideAfter someAfter, Split.expandChild_state _ inside some]
  have sameEnds : (step.resize rect).split.ends step.index (inner.resize part).children =
      step.split.ends step.index inner.children := ends
  rw [sameEnds]
  exact step.split.relayout_resize unchanged (lengths.trans count) rect

/-- A merge in a resized tree splices in the same areas at the same ratios. -/
theorem absorb_resize {lone other : Split ℚ} {survivor : Area ℚ} {part : Rect ℚ}
    (present : step.split.children[step.index]? = some child)
    (sound : step.split.toArea.Sound Regime.ordered config next)
    (only : lone.children = [survivor])
    (survives : survivor.Sound Regime.ordered config next)
    (similar : survivor.rect.Similar part) (named : other.handle = lone.handle)
    (otherOnly : other.children = [survivor.resize part]) (rect : Rect ℚ) :
    (step.resize rect).split.absorb step.index other =
      ((step.split.absorb step.index lone).1.resize rect,
        (step.split.absorb step.index lone).2) := by
  cases survivor with
  | container panel =>
    have placed := replaceChild_resize present sound rect
      ((Area.container panel).unplaced_resize part)
    rw [Area.resize] at otherOnly placed
    simp only [Split.absorb, only, otherOnly, named, placed]
  | split frame children =>
    rw [Area.resize] at otherOnly
    by_cases aligned : frame.direction = step.split.direction
    · have inner : (⟨frame, children⟩ : Split ℚ).toArea.Sound Regime.ordered config next :=
        survives
      have spliced := expandChild_resize present sound inner aligned rect similar
      have alignedAfter : frame.direction = (step.resize rect).split.direction := aligned
      simp only [Split.absorb, only, otherOnly, named, if_pos aligned, if_pos alignedAfter]
      exact congrArg (·, _) spliced
    · have placed := replaceChild_resize present sound rect
        ((Area.split frame children).unplaced_resize part)
      have alignedAfter : ¬ frame.direction = (step.resize rect).split.direction := aligned
      rw [Area.resize] at placed
      simp only [Split.absorb, only, otherOnly, named, if_neg aligned, if_neg alignedAfter, placed]

end Step

/-! ## Vacating -/

def Remains.resize (rect : Rect ℚ) : Remains ℚ → Remains ℚ
  | .nothing => .nothing
  | .kept area => .kept (area.resize rect)
  | .lone split => .lone (split.resize rect)

/-- A split that is left with one child lies where the tree lay. -/
theorem Path.Leads.lone_of_vacate {path : Path ℚ} {root target : Area ℚ}
    (leads : path.Leads root target) (sound : root.Sound Regime.ordered config next)
    {lone : Split ℚ} (left : path.vacate.1 = .lone lone) :
    lone.toArea.Sound Regime.ordered config next ∧ lone.rect = root.rect ∧
      lone.children.length = 1 := by
  cases leads with
  | here area => cases left
  | @down step rest child target present onward =>
    rw [vacate_cons] at left
    cases below : (Path.vacate rest).1 with
    | kept area => simp [Step.tidy, below] at left
    | lone split => simp [Step.tidy, below] at left
    | nothing =>
      simp only [Step.tidy, below] at left
      split at left
      · cases left
      · rename_i several
        simp only at left
        split at left
        · rename_i single
          obtain rfl := Remains.lone.inj left
          have inside := index_lt present
          have whole := (Step.layable_without present sound several).relayout
          rw [← Split.removeChild_state step.split inside several] at whole
          refine ⟨whole, ?_, single⟩
          rw [Split.removeChild_state step.split inside several]
          rfl
        · cases left

theorem Split.resize_only {lone : Split ℚ} {survivor : Area ℚ}
    (only : lone.children = [survivor])
    (sound : lone.toArea.Sound Regime.ordered config next) {rect : Rect ℚ}
    (similar : lone.rect.Similar rect) :
    ∃ part, (lone.resize rect).children = [survivor.resize part] ∧
      survivor.rect.Similar part := by
  let step : Step ℚ := ⟨lone, 0⟩
  have present : step.split.children[step.index]? = some survivor := by
    change lone.children[0]? = some survivor
    rw [only]
    rfl
  refine ⟨step.part rect, ?_, similar.part present sound⟩
  have given := Area.getElem?_resizeEach present (Step.part_given present sound rect)
  have count : (lone.resize rect).children.length = 1 := by
    rw [Split.resize, Split.relayout, Area.length_resizeEach, only, List.length_singleton]
  obtain ⟨placed, single⟩ := List.length_eq_one_iff.mp count
  change (lone.resize rect).children[0]? = _ at given
  rw [single] at given ⊢
  rw [Option.some.inj given]

/-- Tidying a step of a resized tree leaves the same areas and posts the same events. -/
theorem Step.tidy_resize (present : step.split.children[step.index]? = some child)
    (sound : step.split.toArea.Sound Regime.ordered config next)
    {rect : Rect ℚ} (similar : step.split.rect.Similar rect)
    {below : Remains ℚ × List (Event ℚ)}
    (lone : ∀ split, below.1 = .lone split →
      split.toArea.Sound Regime.ordered config next ∧ split.rect = child.rect ∧
        split.children.length = 1) :
    (step.resize rect).tidy (below.1.resize (step.part rect), below.2) =
      ((step.tidy below).1.resize rect, (step.tidy below).2) := by
  obtain ⟨remains, events⟩ := below
  cases remains with
  | nothing =>
    have count := step.length_resize rect
    by_cases single : step.split.children.length = 1
    · simp only [Remains.resize, tidy, count, if_pos single]
      rfl
    · have removed := removeChild_resize present sound single rect
      have countAfter : ((step.split.removeChild step.index).state.resize rect).children.length =
          (step.split.removeChild step.index).state.children.length := Area.length_resizeEach ..
      have index : (step.resize rect).index = step.index := rfl
      simp only [Remains.resize, tidy, count, if_neg single, index, removed, countAfter]
      split
      · rfl
      · rfl
  | kept area =>
    simp only [Remains.resize, tidy, put_resize present sound]
  | lone split =>
    obtain ⟨whole, place, single⟩ := lone split rfl
    obtain ⟨survivor, only⟩ := List.length_eq_one_iff.mp single
    have survives : survivor.Sound Regime.ordered config next := by
      apply whole.child
      rw [only]
      exact List.mem_singleton_self survivor
    have inPlace : split.rect.Similar (step.part rect) := by
      rw [place]
      exact similar.part present sound
    obtain ⟨part, otherOnly, survivorSimilar⟩ := Split.resize_only only whole inPlace
    have named : (split.resize (step.part rect)).handle = split.handle := rfl
    have absorbed := absorb_resize present sound only survives survivorSimilar named otherOnly rect
    have index : (step.resize rect).index = step.index := rfl
    simp only [Remains.resize, tidy, index, absorbed]
    rfl

namespace Path.Leads

variable {path : Path ℚ} {root target : Area ℚ}

theorem vacate_resize (leads : path.Leads root target)
    (sound : root.Sound Regime.ordered config next) {rect : Rect ℚ}
    (similar : root.rect.Similar rect) :
    (path.resize rect).vacate = (path.vacate.1.resize rect, path.vacate.2) := by
  induction leads generalizing rect with
  | here area => rfl
  | @down step rest child target present onward ih =>
    have below := sound.child (member present)
    rw [resize, vacate_cons, ih below (similar.part present sound),
      Step.tidy_resize present sound similar fun split => onward.lone_of_vacate below, vacate_cons]

theorem root_resize (leads : path.Leads root target)
    (sound : root.Sound Regime.ordered config next) {rect : Rect ℚ}
    (similar : root.rect.Similar rect) :
    Remains.root (path.resize rect).vacate =
      ((Remains.root path.vacate).1.map (·.resize rect), (Remains.root path.vacate).2) := by
  have lone := fun split (left : path.vacate.1 = .lone split) => leads.lone_of_vacate sound left
  rw [leads.vacate_resize sound similar]
  generalize path.vacate = below at lone
  obtain ⟨remains, events⟩ := below
  cases remains with
  | nothing => rfl
  | kept area => rfl
  | lone split =>
    obtain ⟨whole, place, single⟩ := lone split rfl
    obtain ⟨survivor, only⟩ := List.length_eq_one_iff.mp single
    rw [← place] at similar
    obtain ⟨part, otherOnly, -⟩ := Split.resize_only only whole similar
    simp only [Remains.resize, Remains.root, only, otherOnly, List.head?_cons, Option.map_some,
      Area.resize_resize]
    rfl

end Path.Leads

end Merging

end DockLayout
