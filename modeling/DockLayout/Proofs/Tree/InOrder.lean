import DockLayout.Proofs.Numbers.Shares
import DockLayout.Proofs.Tree.Refusals

/-!
# Splits in order

A split is in order when it has one ratio for each child, the ratios ascend from zero to one
and the children lie where the ratios put them. In exact arithmetic a split that was built
from two areas or read is in order, and no edit takes it out of order: a moved boundary stays
between its neighbours, an inserted one halves the place of a child, a removed one leaves its
place to a neighbour, and areas that replace a child share its place.
-/

set_option autoImplicit false

namespace DockLayout

/-- One ratio for each child, in order up to one, and the children placed by them. -/
structure Split.InOrder (s : Split ℚ) : Prop where
  count : s.ratios.length = s.children.length
  ascending : s.ratios.Pairwise (· ≤ ·)
  fraction : ∀ ratio ∈ s.ratios, 0 ≤ ratio ∧ ratio ≤ 1
  last : s.ratios.getLast? = some 1
  placed : s.children.map Area.rect = s.rect.cut s.direction s.ratios

theorem insertIdx_eq_take_append {α : Type} (list : List α) {index : Nat}
    (inside : index ≤ list.length) (new : α) :
    list.insertIdx index new = list.take index ++ new :: list.drop index := by
  induction index generalizing list with
  | zero => rfl
  | succ index ih =>
    cases list with
    | nil => cases inside
    | cons first rest =>
      rw [List.insertIdx_succ_cons, ih rest (Nat.le_of_succ_le_succ inside), List.take_succ_cons,
        List.drop_succ_cons, List.cons_append]

def Split.ratiosWith {K : Type} [Scalar K] (ratios : List K) (index : Nat) : List K :=
  ratios.insertIdx index
    (ratios.getD index 0 - (ratios.getD index 0 - previousRatio ratios index) / 2.0)

theorem Ordered.inserted {ratios : List ℚ} (ordered : Ordered ratios) {index : Nat}
    (inside : index < ratios.length) : Ordered (Split.ratiosWith ratios index) := by
  have order := Split.previousRatio_le ordered inside
  have finish := ordered.fraction _ (List.getElem_mem inside)
  have two : (2.0 : ℚ) = 2 := by norm_num
  rw [Split.ratiosWith, List.getD_eq_getElem ratios 0 inside, two]
  generalize same : ratios[index] - (ratios[index] - Split.previousRatio ratios index) / 2 = middle
  have above : Split.previousRatio ratios index ≤ middle := by linarith
  have below : middle ≤ ratios[index] := by linarith
  have parts : ratios.insertIdx index middle =
      ratios.take index ++ [middle, ratios[index]] ++ ratios.drop (index + 1) := by
    rw [insertIdx_eq_take_append ratios inside.le, List.drop_eq_getElem_cons inside,
      List.append_assoc, List.cons_append, List.singleton_append]
  have within : ∀ ratio ∈ [middle, ratios[index]],
      Split.previousRatio ratios index ≤ ratio ∧ ratio ≤ ratios[index] := by
    simp [above, below, order]
  rw [parts]
  refine ordered.replace inside (List.pairwise_pair.mpr below) ?_ ?_ ?_ ?_
  · intro ratio listed
    obtain ⟨low, high⟩ := within ratio listed
    exact .of_between trivial (ordered.previous inside).1 finish low high
  · exact fun ratio listed => (within ratio listed).1
  · intro ratio listed later behind
    exact (within ratio listed).2.trans (ordered.following inside later behind)
  · intro final
    exact congrArg some (ordered.getElem_of_last inside final)

namespace Split

theorem InOrder.ordered {s : Split ℚ} (inOrder : s.InOrder) : Ordered s.ratios :=
  Exact.ordered_iff.mpr ⟨inOrder.ascending, inOrder.fraction, inOrder.last⟩

/-- Laying out the children puts a split in order whose ratios are ordered. -/
theorem inOrder_relayout {s : Split ℚ} (ordered : Ordered s.ratios)
    (count : s.children.length = s.ratios.length) : s.relayout.InOrder := by
  obtain ⟨ascending, fraction, last⟩ := Exact.ordered_iff.mp ordered
  have parts : s.children.length = (s.rect.cut s.direction s.ratios).length := by
    rw [Rect.length_cut, count]
  refine ⟨?_, ascending, fraction, last, Area.map_rect_resizeEach parts⟩
  exact count.symm.trans (Area.length_resizeEach _ _).symm

/-! ## Construction -/

inductive Built : Split ℚ → Prop
  | pair (direction : Direction) (share : ℚ) (handle : SplitHandle) (rect : Rect ℚ)
      (first second : Area ℚ) : Built (Split.pair direction share handle rect first second)
  | read {value : Json ℚ} {split : Split ℚ} (decoded : Split.decode value = .ok split) :
      Built split

theorem decode_eq_ok {value : Json ℚ} {split : Split ℚ}
    (decoded : Split.decode value = .ok split) :
    ∃ head children, assemble head children = .ok split := by
  rw [Split.decode] at decoded
  obtain ⟨head, -, rest⟩ := Success.bind_eq_ok.mp decoded
  dsimp only at rest
  split at rest
  · obtain ⟨children, -, made⟩ := Success.bind_eq_ok.mp rest
    exact ⟨head, children, made⟩
  · exact ⟨head, [], rest⟩

theorem Built.inOrder {s : Split ℚ} (built : s.Built) : s.InOrder := by
  cases built with
  | pair direction share handle rect first second =>
    exact inOrder_relayout (Ordered.pair trivial) rfl
  | @read value split decoded =>
    obtain ⟨head, children, made⟩ := decode_eq_ok decoded
    obtain ⟨-, count, rfl⟩ := make_eq_ok made
    exact inOrder_relayout (Exact.ordered_of_made made) count

/-! ## Edits -/

theorem insertChild_eq {K : Type} [Scalar K] (s : Split K) {index : Nat}
    (inside : index < s.children.length) (area : Area K) :
    s.insertChild index area =
      .quiet (relayout { s with
        children := s.children.insertIdx index area
        ratios := ratiosWith s.ratios index }) () := by
  rw [insertChild, s.atChild_of_lt inside]
  rfl

end Split

/-- The areas that are to replace a child have no negative width or height. Other edits
may have any arguments. -/
def SplitEdit.Admissible : SplitEdit ℚ → Prop
  | .expandChild _ areas => ∀ area ∈ areas, area.rect.Nonneg
  | .resize _ | .changeRatio .. | .replaceChild .. | .insertChild .. | .removeChild _ => True

namespace Split

theorem InOrder.apply {s : Split ℚ} (inOrder : s.InOrder) {edit : SplitEdit ℚ}
    (admissible : edit.Admissible) : (s.apply edit).state.InOrder := by
  by_cases refused : ∃ error, s.Refuses edit error
  case pos =>
    obtain ⟨error, refuses⟩ := refused
    rw [refuses.apply_eq]
    exact inOrder
  have ordered := inOrder.ordered
  have count := inOrder.count
  have named : ∀ index, edit.child? = some index → s.HasChild index := by
    intro index child
    by_contra outside
    exact refused ⟨_, .child child outside⟩
  cases edit with
  | resize rect => exact inOrder_relayout ordered count.symm
  | changeRatio index delta =>
    have inside : s.HasBoundary index := by
      by_contra outside
      exact refused ⟨_, .boundary outside delta⟩
    obtain ⟨position, rfl, movable⟩ := inside.exists_lt
    rw [Split.apply, s.changeRatio_of_lt movable]
    refine inOrder_relayout (ordered.moved trivial movable) ?_
    rw [List.length_set, count]
  | replaceChild index area =>
    obtain ⟨position, rfl, inside⟩ := (named index rfl).exists_lt
    rw [Split.apply, replaceChild_state s inside]
    refine inOrder_relayout ordered ?_
    rw [List.length_set, count]
  | insertChild index area =>
    obtain ⟨position, rfl, inside⟩ := (named index rfl).exists_lt
    have within : position < s.ratios.length := count ▸ inside
    change (s.insertChild position area).state.InOrder
    rw [insertChild_eq s inside]
    refine inOrder_relayout (ordered.inserted within) ?_
    rw [List.length_insertIdx_of_le_length inside.le, ratiosWith,
      List.length_insertIdx_of_le_length within.le, count]
  | removeChild index =>
    have present := named index rfl
    have several : s.children.length ≠ 1 := fun single => refused ⟨_, .onlyChild present single⟩
    obtain ⟨position, rfl, inside⟩ := present.exists_lt
    have within : position < s.ratios.length := count ▸ inside
    rw [Split.apply, removeChild_state s inside several]
    refine inOrder_relayout (ordered.without within) ?_
    rw [List.length_eraseIdx_of_lt inside, length_ratiosWithout within (count ▸ several), count]
  | expandChild index areas =>
    have present := named index rfl
    have some : areas ≠ [] := by
      rintro rfl
      exact refused ⟨_, .noReplacement present⟩
    obtain ⟨position, rfl, inside⟩ := present.exists_lt
    have within : position < s.ratios.length := count ▸ inside
    have shared := ordered_shares some fun area listed => admissible area listed s.direction
    change (s.expandChild position areas).state.InOrder
    rw [expandChild_state s inside some]
    refine inOrder_relayout (ordered.shared within shared) ?_
    simp only [List.length_append, List.length_take, List.length_drop, length_ends s position some,
      count]

/-! ## Sessions -/

/-- The split after some edits, one after the other. A refused edit counts for what it
leaves behind. -/
def run {K : Type} [Scalar K] (s : Split K) (edits : List (SplitEdit K)) : Split K :=
  edits.foldl (fun state edit => (state.apply edit).state) s

theorem InOrder.run {s : Split ℚ} (inOrder : s.InOrder) {edits : List (SplitEdit ℚ)}
    (admissible : ∀ edit ∈ edits, edit.Admissible) : (s.run edits).InOrder := by
  induction edits generalizing s with
  | nil => exact inOrder
  | cons edit rest ih =>
    exact ih (inOrder.apply (admissible edit List.mem_cons_self))
      fun later listed => admissible later (List.mem_cons_of_mem edit listed)

/-- Whatever is done to a split that was built from two areas or read, it is in order after
every edit. It refuses an edit for its arguments only, and is then left as it was. -/
theorem edits_keep_order {s : Split ℚ} (built : s.Built) {edits : List (SplitEdit ℚ)}
    (admissible : ∀ edit ∈ edits, edit.Admissible) {done : List (SplitEdit ℚ)}
    (soFar : done <+: edits) :
    (s.run done).InOrder ∧ ∀ edit error, ((s.run done).apply edit).result = .error error →
      (s.run done).Refuses edit error ∧ ((s.run done).apply edit).state = s.run done := by
  constructor
  · exact built.inOrder.run fun edit listed => admissible edit (soFar.mem listed)
  · intro edit error failed
    have refuses := refuses_of_error failed
    refine ⟨refuses, ?_⟩
    rw [refuses.apply_eq]
    rfl

def vacant (width : ℚ) : Area ℚ :=
  .container {
    docks := [], active := 0, rect := ⟨0, 0, width, 10⟩
    headerHeight := 20, dropEdgeFraction := 1 / 4 }

theorem nonneg_vacant {width : ℚ} (nonneg : 0 ≤ width) : (vacant width).rect.Nonneg := by
  intro axis
  cases axis
  · exact (by norm_num : (0 : ℚ) ≤ 10)
  · exact nonneg

def columnPair : Split ℚ := .pair .vertical (1 / 2) ⟨1⟩ ⟨0, 0, 640, 480⟩ (vacant 0) (vacant 0)

/-- A column before the first one, the boundary after it pushed to the far end, two columns
in the place of the second one, and the last one gone. -/
def columnEdits : List (SplitEdit ℚ) :=
  [.insertChild 0 (vacant 0), .changeRatio 1 ⟨-1000, 0⟩, .expandChild 1 [vacant 30, vacant 10],
    .removeChild 7, .removeChild 3]

/-- In the middle of the edits, before the refused removal, and after all of them. -/
theorem edits_keep_order_of_columns :
    columnPair.Built ∧ (∀ edit ∈ columnEdits, edit.Admissible) ∧
    columnEdits.take 3 <+: columnEdits ∧
    (columnPair.run (columnEdits.take 3)).InOrder ∧
    (columnPair.run (columnEdits.take 3)).ratios = [1 / 4, 161 / 200, 99 / 100, 1] ∧
    ((columnPair.run (columnEdits.take 3)).apply (.removeChild 7)).state =
      columnPair.run (columnEdits.take 3) ∧
    (columnPair.run columnEdits).InOrder ∧
    (columnPair.run columnEdits).ratios = [1 / 4, 161 / 200, 1] := by
  have built : columnPair.Built := .pair _ _ _ _ _ _
  have admissible : ∀ edit ∈ columnEdits, edit.Admissible := by
    simp [columnEdits, SplitEdit.Admissible, nonneg_vacant]
  have soFar : columnEdits.take 3 <+: columnEdits := List.take_prefix 3 columnEdits
  have outside : ¬ (columnPair.run (columnEdits.take 3)).HasChild 7 := by
    have four : (columnPair.run (columnEdits.take 3)).children.length = 4 := by decide +kernel
    intro inside
    have bound := inside.2
    omega
  obtain ⟨early, refusals⟩ := edits_keep_order built admissible soFar
  obtain ⟨late, -⟩ := edits_keep_order built admissible (List.prefix_refl columnEdits)
  refine ⟨built, admissible, soFar, early, ?_, ?_, late, ?_⟩
  · decide +kernel
  · have refused := (@Refuses.child ℚ _ (.removeChild 7) 7 rfl outside).apply_eq
    exact (refusals (.removeChild 7) _ (congrArg (·.result) refused)).2
  · decide +kernel

end Split

end DockLayout
