import Mathlib.Data.List.InsertIdx
import DockLayout.Proofs.Plane.Transpose
import DockLayout.Proofs.Tree.PathEdits
import DockLayout.Tree.HitTest

/-!
# Transposed trees

Transposing a tree exchanges rows and columns: every split is cut along the other
axis, and every rectangle is reflected in the diagonal. What is done to a tree is
done to the transposed one in the same way, for no code knows one axis from the
other except by the direction of a split.
-/

set_option autoImplicit false

namespace DockLayout

variable {K : Type}

/-! ## Transposition -/

def Partition.transpose (frame : Partition K) : Partition K :=
  { frame with direction := frame.direction.flip, rect := frame.rect.swap }

def Container.transpose (panel : Container K) : Container K :=
  { panel with rect := panel.rect.swap }

namespace Area

mutual

def transpose : Area K → Area K
  | .container panel => .container panel.transpose
  | .split frame children => .split frame.transpose (transposeEach children)

def transposeEach : List (Area K) → List (Area K)
  | [] => []
  | area :: rest => area.transpose :: transposeEach rest

end

theorem transposeEach_eq (areas : List (Area K)) : transposeEach areas = areas.map transpose := by
  induction areas with
  | nil => rfl
  | cons area rest ih => rw [transposeEach, ih, List.map_cons]

@[simp] theorem transpose_container (panel : Container K) :
    (container panel).transpose = .container panel.transpose := by
  rw [transpose]

@[simp] theorem transpose_split (frame : Partition K) (children : List (Area K)) :
    (split frame children).transpose = .split frame.transpose (children.map transpose) := by
  rw [transpose, transposeEach_eq]

@[simp] theorem rect_transpose (area : Area K) : area.transpose.rect = area.rect.swap := by
  cases area with
  | container panel => rfl
  | split frame children => rw [transpose_split, rect, rect, Partition.transpose]

end Area

def Split.transpose (s : Split K) : Split K :=
  ⟨s.toPartition.transpose, s.children.map Area.transpose⟩

@[simp] theorem Split.toArea_transpose (s : Split K) :
    s.transpose.toArea = s.toArea.transpose := by
  rw [toArea, toArea, Area.transpose_split, transpose]

def Step.transpose (step : Step K) : Step K := ⟨step.split.transpose, step.index⟩

def Path.transpose (path : Path K) : Path K := path.map Step.transpose

def Remains.transpose : Remains K → Remains K
  | .nothing => .nothing
  | .kept area => .kept area.transpose
  | .lone split => .lone split.transpose

/-! ## Placing -/

variable [Scalar K]

namespace Area

theorem resizeEach_transpose {areas : List (Area K)}
    (each : ∀ area ∈ areas, ∀ rect : Rect K,
      area.transpose.resize rect.swap = (area.resize rect).transpose)
    (rects : List (Rect K)) :
    resizeEach (areas.map transpose) (rects.map Rect.swap) =
      (resizeEach areas rects).map transpose := by
  induction areas generalizing rects with
  | nil => rfl
  | cons area rest ih =>
    cases rects with
    | nil => rfl
    | cons rect others =>
      have here := each area List.mem_cons_self rect
      have later := ih (fun other listed => each other (List.mem_cons_of_mem area listed)) others
      rw [List.map_cons, List.map_cons, resizeEach, resizeEach, List.map_cons, here, later]

theorem resize_transpose (area : Area K) (rect : Rect K) :
    area.transpose.resize rect.swap = (area.resize rect).transpose := by
  induction area generalizing rect with
  | container panel => simp only [transpose_container, resize, Container.transpose]
  | split frame children ih =>
    have parts := resizeEach_transpose ih (rect.cut frame.direction frame.ratios)
    rw [← Rect.cut_swap] at parts
    rw [transpose_split, resize, resize, transpose_split, ← parts]
    rfl

end Area

/-! ## Edits of a split -/

namespace Split

theorem relayout_transpose (s : Split K) : s.transpose.relayout = s.relayout.transpose := by
  have parts := Area.resizeEach_transpose
    (fun area (_ : area ∈ s.children) => area.resize_transpose)
    (s.rect.cut s.direction s.ratios)
  rw [← Rect.cut_swap] at parts
  exact congrArg (fun children => (⟨s.toPartition.transpose, children⟩ : Split K)) parts

theorem pair_transpose (direction : Direction) (ratio : K) (handle : SplitHandle) (rect : Rect K)
    (first second : Area K) :
    pair direction.flip ratio handle rect.swap first.transpose second.transpose =
      (pair direction ratio handle rect first second).transpose :=
  relayout_transpose ⟨⟨handle, direction, [bounded ratio, 1], rect⟩, [first, second]⟩

theorem movedRatio_transpose (s : Split K) (index : Nat) (delta : Point K) :
    s.transpose.movedRatio index delta.swap = s.movedRatio index delta := by
  have shift : s.transpose.ratioDelta delta.swap = s.ratioDelta delta := by
    simp only [ratioDelta, transpose, Partition.transpose, Rect.extent_swap, Point.along_swap]
  rw [movedRatio, movedRatio, shift]
  rfl

theorem changeRatio_transpose (s : Split K) (index : Int) (delta : Point K) :
    s.transpose.changeRatio index delta.swap = (s.changeRatio index delta).within transpose := by
  have ratios : s.transpose.ratios = s.ratios := rfl
  have named : s.transpose.handle = s.handle := rfl
  simp only [changeRatio, ratios, named, movedRatio_transpose]
  split
  · exact congrArg (Outcome.quiet · ()) (relayout_transpose
      { s with ratios := s.ratios.set index.toNat (s.movedRatio index.toNat delta) })
  · rfl

omit [Scalar K] in
@[simp] theorem length_transpose (s : Split K) :
    s.transpose.children.length = s.children.length :=
  List.length_map _

theorem replaceChild_transpose (s : Split K) (index : Int) (area : Area K) :
    (s.transpose.replaceChild index area.transpose).state =
      (s.replaceChild index area).state.transpose := by
  simp only [replaceChild, atChild, length_transpose]
  split
  · have placed := relayout_transpose
      { s with children := s.children.set index.toNat area }
    simp only [transpose, List.map_set] at placed
    exact placed
  · rfl

theorem removeChild_transpose (s : Split K) (index : Int) :
    (s.transpose.removeChild index).state = (s.removeChild index).state.transpose := by
  simp only [removeChild, atChild, length_transpose]
  split
  · split
    · rfl
    · have placed := relayout_transpose { s with
        children := s.children.eraseIdx index.toNat
        ratios := Split.ratiosWithout s.ratios index.toNat }
      simp only [transpose, ← List.eraseIdx_map] at placed
      exact placed
  · rfl

theorem weights_transpose (direction : Direction) (areas : List (Area K)) :
    weights direction.flip (areas.map Area.transpose) = weights direction areas := by
  have extents : (areas.map Area.transpose).map (fun area => area.rect.extent direction.flip) =
      areas.map fun area => area.rect.extent direction := by
    rw [List.map_map]
    apply List.map_congr_left
    intro area listed
    rw [Function.comp_apply, Area.rect_transpose, Rect.extent_swap]
  rw [weights, weights, extents, List.length_map]

theorem expandChild_transpose (s : Split K) (index : Int) (areas : List (Area K)) :
    (s.transpose.expandChild index (areas.map Area.transpose)).state =
      (s.expandChild index areas).state.transpose := by
  have weighed : weights s.transpose.direction (areas.map Area.transpose) =
      weights s.direction areas := weights_transpose s.direction areas
  simp only [expandChild, atChild, length_transpose, List.isEmpty_map, weighed]
  split
  · split
    · rfl
    · have placed := relayout_transpose { s with
        children := s.children.take index.toNat ++ areas ++ s.children.drop (index.toNat + 1)
        ratios := s.ratios.take index.toNat ++ s.ends index.toNat areas ++
          s.ratios.drop (index.toNat + 1) }
      simp only [transpose, List.map_append, List.map_take, List.map_drop] at placed
      exact placed
  · rfl

theorem absorb_transpose (parent : Split K) (index : Nat) (lone : Split K) :
    parent.transpose.absorb index lone.transpose =
      ((parent.absorb index lone).1.transpose, (parent.absorb index lone).2) := by
  cases only : lone.children with
  | nil =>
    have onlyAfter : lone.transpose.children = [] := by
      rw [transpose, only, List.map_nil]
    simp only [absorb, only, onlyAfter]
  | cons survivor rest =>
    have onlyAfter : lone.transpose.children =
        survivor.transpose :: rest.map Area.transpose := by
      rw [transpose, only, List.map_cons]
    have named : lone.transpose.handle = lone.handle := rfl
    have replaced := parent.replaceChild_transpose index survivor
    cases survivor with
    | container panel =>
      rw [Area.transpose_container] at onlyAfter replaced
      simp only [absorb, only, onlyAfter, named, replaced]
    | split frame children =>
      rw [Area.transpose_split] at onlyAfter replaced
      have aligned : frame.transpose.direction = parent.transpose.direction ↔
          frame.direction = parent.direction := Direction.flip_inj
      simp only [absorb, only, onlyAfter, named, aligned]
      split
      · rw [parent.expandChild_transpose index children]
        rfl
      · rw [replaced]

end Split

/-! ## Edits along a path -/

omit [Scalar K] in
theorem Step.put_transpose (step : Step K) (area : Area K) :
    step.transpose.put area.transpose = (step.put area).transpose := by
  rw [put, put, Area.transpose_split, List.map_set]
  rfl

/-- Tidying a transposed step leaves the transposed areas and posts the same events. -/
theorem Step.tidy_transpose (step : Step K) (below : Remains K × List (Event K)) :
    step.transpose.tidy (below.1.transpose, below.2) =
      ((step.tidy below).1.transpose, (step.tidy below).2) := by
  obtain ⟨remains, events⟩ := below
  have count : step.transpose.split.children.length = step.split.children.length :=
    step.split.length_transpose
  have index : step.transpose.index = step.index := rfl
  cases remains with
  | nothing =>
    have removed : (step.transpose.split.removeChild step.index).state =
        (step.split.removeChild step.index).state.transpose :=
      step.split.removeChild_transpose step.index
    simp only [Remains.transpose, tidy, count, index, removed, Split.length_transpose]
    split
    · rfl
    · split
      · rfl
      · rw [Split.toArea_transpose]
  | kept area => simp only [Remains.transpose, tidy, put_transpose]
  | lone split =>
    have absorbed : step.transpose.split.absorb step.index split.transpose =
        ((step.split.absorb step.index split).1.transpose,
          (step.split.absorb step.index split).2) :=
      step.split.absorb_transpose step.index split
    simp only [Remains.transpose, tidy, index, absorbed, Split.toArea_transpose]

namespace Path

omit [Scalar K] in
theorem put_transpose (path : Path K) (area : Area K) :
    path.transpose.put area.transpose = (path.put area).transpose := by
  induction path with
  | nil => rfl
  | cons step rest ih =>
    have here := step.put_transpose (Path.put rest area)
    rw [← ih] at here
    exact here

theorem settle_transpose (path : Path K) (area : Area K) :
    path.transpose.settle area.transpose = (path.settle area).transpose := by
  induction path with
  | nil => rfl
  | cons step rest ih =>
    cases rest with
    | nil =>
      have placed := congrArg Split.toArea (step.split.replaceChild_transpose step.index area)
      rw [Split.toArea_transpose] at placed
      exact placed
    | cons following rest =>
      have here := step.put_transpose (settle (following :: rest) area)
      rw [← ih] at here
      exact here

theorem vacate_transpose (path : Path K) :
    path.transpose.vacate = (path.vacate.1.transpose, path.vacate.2) := by
  induction path with
  | nil => rfl
  | cons step rest ih =>
    have here := step.tidy_transpose (vacate rest)
    rw [← ih] at here
    exact here

end Path

theorem Remains.root_transpose (below : Remains K × List (Event K)) :
    root (below.1.transpose, below.2) =
      ((root below).1.map Area.transpose, (root below).2) := by
  obtain ⟨remains, events⟩ := below
  cases remains with
  | nothing => rfl
  | kept area => rfl
  | lone split =>
    have survivor : (split.transpose.children.head?.map fun survivor =>
        survivor.resize split.transpose.rect) =
        (split.children.head?.map fun survivor => survivor.resize split.rect).map
          Area.transpose := by
      rw [Split.transpose, List.head?_map, Option.map_map, Option.map_map]
      exact congrArg (Option.map · split.children.head?)
        (funext fun survivor => survivor.resize_transpose split.rect)
    rw [transpose, root, root, survivor]
    rfl

/-! ## Searches -/

section Searching

omit [Scalar K]

namespace Area

def transposeFound (found : Path K × Container K) : Path K × Container K :=
  (found.1.transpose, found.2.transpose)

theorem locate?_transpose (area : Area K) (handle : DockHandle) :
    area.transpose.locate? handle = (area.locate? handle).map transposeFound := by
  have searching : ∀ (children : List (Area K)) (start : Nat),
      (∀ child ∈ children,
        child.transpose.locate? handle = (child.locate? handle).map transposeFound) →
      locateIn handle (children.map transpose) start =
        (locateIn handle children start).map fun found => (found.1, transposeFound found.2) := by
    intro children
    induction children with
    | nil => exact fun _ _ => rfl
    | cons child rest ih =>
      intro start each
      have here := each child List.mem_cons_self
      have later := ih (start + 1)
        fun other listed => each other (List.mem_cons_of_mem child listed)
      rw [List.map_cons, locateIn, locateIn, here, later]
      cases child.locate? handle with
      | none => rfl
      | some found => rfl
  induction area with
  | container panel =>
    have same : panel.transpose.hasDock handle = panel.hasDock handle := rfl
    rw [transpose_container, locate?, locate?, same]
    by_cases holds : panel.hasDock handle = true
    · rw [if_pos holds, if_pos holds]
      rfl
    · rw [if_neg holds, if_neg holds]
      rfl
  | split frame children ih =>
    rw [transpose_split, locate?, locate?, searching children 0 ih]
    cases locateIn handle children 0 with
    | none => rfl
    | some found => rfl

theorem findSplit?_transpose (area : Area K) (handle : SplitHandle) :
    area.transpose.findSplit? handle = (area.findSplit? handle).map Split.transpose := by
  induction area with
  | container panel => rfl
  | split frame children ih =>
    have named : frame.transpose.handle = frame.handle := rfl
    have searching : findSplitIn handle (children.map transpose) =
        (findSplitIn handle children).map Split.transpose := by
      induction children with
      | nil => rfl
      | cons child rest ihRest =>
        have here := ih child List.mem_cons_self
        have later := ihRest fun other listed => ih other (List.mem_cons_of_mem child listed)
        rw [List.map_cons, findSplitIn, findSplitIn, here, later]
        cases child.findSplit? handle with
        | none => rfl
        | some found => rfl
    rw [transpose_split, findSplit?, findSplit?, named, searching]
    split
    · rfl
    · rfl

theorem putSplit_transpose (area : Area K) (handle : SplitHandle) (new : Split K) :
    area.transpose.putSplit handle new.transpose =
      (area.putSplit handle new).map transpose := by
  induction area with
  | container panel => rfl
  | split frame children ih =>
    have named : frame.transpose.handle = frame.handle := rfl
    have replacing : putSplitIn handle new.transpose (children.map transpose) =
        (putSplitIn handle new children).map (List.map transpose) := by
      induction children with
      | nil => rfl
      | cons child rest ihRest =>
        have here := ih child List.mem_cons_self
        have later := ihRest fun other listed => ih other (List.mem_cons_of_mem child listed)
        rw [List.map_cons, putSplitIn, putSplitIn, here, later]
        cases child.putSplit handle new with
        | none => cases putSplitIn handle new rest <;> rfl
        | some changed => rfl
    rw [transpose_split, putSplit, putSplit, named, replacing]
    split
    · rw [Option.map_some, Split.toArea_transpose]
    · cases putSplitIn handle new children with
      | none => rfl
      | some changed => exact congrArg some (transpose_split frame changed).symm

end Area

end Searching

/-! ## Hit tests -/

namespace DragTarget

def sizer? : DragTarget → Option DragTarget
  | .sizer split index direction => some (.sizer split index direction)
  | .tab _ => none

def transpose : DragTarget → DragTarget
  | .sizer split index direction => .sizer split index direction.flip
  | .tab dock => .tab dock

end DragTarget

theorem Partition.sizerAt?_transpose (frame : Partition K) (p : Point K) :
    frame.transpose.sizerAt? p.swap = frame.sizerAt? p := by
  have bands : frame.transpose.sizers = frame.sizers.map Rect.swap :=
    frame.rect.bands_swap frame.direction frame.ratios.dropLast (sizerThickness K)
  rw [sizerAt?, sizerAt?, bands, List.findIdx?_map]
  simp only [Function.comp_def, Rect.mem_swap]

namespace Area

/-- A press on a boundary finds it in the transposed tree. Where the tabs of a container
lie depends on the axis. -/
theorem dragTarget?_transpose (area : Area K) (p : Point K) :
    (area.transpose.dragTarget? p.swap).bind DragTarget.sizer? =
      ((area.dragTarget? p).bind DragTarget.sizer?).map DragTarget.transpose := by
  induction area with
  | container panel =>
    have tab : ∀ panel : Container K, ∀ p : Point K,
        (panel.dragTarget? p).bind DragTarget.sizer? = none := by
      intro panel p
      rw [Container.dragTarget?]
      split
      · cases (panel.docks.zip panel.tabs).find? fun entry => p ∈ entry.2 with
        | none => rfl
        | some entry => rfl
      · rfl
    rw [transpose_container, dragTarget?, dragTarget?, tab, tab]
    rfl
  | split frame children ih =>
    have below : (dragTargetIn (children.map transpose) p.swap).bind DragTarget.sizer? =
        ((dragTargetIn children p).bind DragTarget.sizer?).map DragTarget.transpose := by
      induction children with
      | nil => rfl
      | cons child rest ihRest =>
        have here := ih child List.mem_cons_self
        have later := ihRest fun other listed => ih other (List.mem_cons_of_mem child listed)
        rw [List.map_cons, dragTargetIn, dragTargetIn, rect_transpose]
        simp only [Rect.mem_swap]
        split
        · exact here
        · exact later
    rw [transpose_split, dragTarget?, dragTarget?, frame.sizerAt?_transpose]
    cases frame.sizerAt? p with
    | some index => rfl
    | none => exact below

theorem dockAt?_transpose (area : Area K) (p : Point K) :
    area.transpose.dockAt? p.swap = area.dockAt? p := by
  induction area with
  | container panel =>
    rw [transpose_container, dockAt?, dockAt?]
    simp only [Container.dockAt?, Container.transpose, Rect.mem_swap]
    rfl
  | split frame children ih =>
    rw [transpose_split, dockAt?, dockAt?]
    induction children with
    | nil => rfl
    | cons child rest ihRest =>
      have here := ih child List.mem_cons_self
      have later := ihRest fun other listed => ih other (List.mem_cons_of_mem child listed)
      rw [List.map_cons, dockIn, dockIn, rect_transpose, here, later]
      simp only [Rect.mem_swap]

end Area

end DockLayout
