import DockLayout.Proofs.Numbers.ExactSplice
import DockLayout.Proofs.Tree.SoundEdits

/-!
# Closing a panel of an exact tree

When a panel is closed, the child next to what is removed takes over its place.
Over the rationals the splits on the way to the root are then tidied without
moving anything else: what is left below a step stands for an area in its old
place, and putting it there changes no rectangle, however it is put there.
-/

set_option autoImplicit false

namespace DockLayout

variable {config : Config ℚ} {next : Int}

/-! ## Lists -/

section Lists

variable {α : Type}

theorem exists_adjacent {list : List α} {index : Nat} (inside : index + 1 < list.length) :
    ∃ front back : List α, ∃ first second : α,
      list = front ++ first :: second :: back ∧ front.length = index := by
  have early : index < list.length := Nat.lt_of_succ_lt inside
  refine ⟨list.take index, list.drop (index + 2), list[index], list[index + 1], ?_, ?_⟩
  · rw [← List.drop_eq_getElem_cons inside, ← List.drop_eq_getElem_cons early,
      List.take_append_drop]
  · rw [List.length_take]
    omega

theorem eraseIdx_among (front back : List α) (element : α) :
    (front ++ element :: back).eraseIdx front.length = front ++ back := by
  rw [List.eraseIdx_append_of_length_le (Nat.le_refl _), Nat.sub_self]
  rfl

theorem eraseIdx_last (front : List α) (first second : α) :
    (front ++ [first, second]).eraseIdx (front.length + 1) = front ++ [first] := by
  have window := eraseIdx_among (front ++ [first]) [] second
  rwa [List.length_append, List.length_singleton, List.append_assoc, List.append_nil] at window

theorem mem_of_mem_besides {front back : List α} {first second element : α}
    (listed : element ∈ front ++ back) : element ∈ front ++ first :: second :: back := by
  have fewer : back.Sublist (first :: second :: back) :=
    (List.sublist_cons_self second back).trans (List.sublist_cons_self first _)
  exact (fewer.append_left front).mem listed

end Lists

/-! ## Laying out again -/

namespace Area

theorem Sound.nonneg_child {frame : Partition ℚ} {children : List (Area ℚ)} {child : Area ℚ}
    (sound : (Area.split frame children).Sound Regime.ordered config next)
    (nonneg : frame.rect.Nonneg) (listed : child ∈ children) : child.rect.Nonneg := by
  cases sound with
  | split ratios room placed known each =>
    apply nonneg.of_cutFrom (Exact.pairwise_zero ratios)
    rw [← Rect.cut, ← placed]
    exact List.mem_map_of_mem listed

theorem Sound.rect_of_only {frame : Partition ℚ} {child : Area ℚ}
    (sound : (Area.split frame [child]).Sound Regime.ordered config next) :
    child.rect = frame.rect := by
  have count := sound.count
  cases sound with
  | split ratios room placed known each =>
    obtain ⟨ratio, single⟩ := List.length_eq_one_iff.mp count.symm
    have last := ratios.last
    rw [single] at last
    obtain rfl : ratio = 1 := Option.some.inj last
    have whole : frame.rect.cut frame.direction [1] = [frame.rect] := by
      rw [Rect.cut, Rect.cutFrom_cons zero_le_one, sub_zero, Rect.slab_whole]
      rfl
    rw [single, whole] at placed
    exact (List.cons.inj placed).1

end Area

namespace Split

theorem ratiosWithout_last {ratios : List ℚ} (last : ratios.getLast? = some 1) {index : Nat}
    (size : ratios.length = index + 2) :
    ratiosWithout ratios (index + 1) = ratios.eraseIdx index := by
  have pair : index + 1 < ratios.length := by omega
  obtain ⟨front, back, middle, finish, rfl, rfl⟩ := exists_adjacent pair
  rw [List.length_append, List.length_cons, List.length_cons] at size
  obtain rfl : back = [] := List.length_eq_zero_iff.mp (by omega)
  obtain rfl : finish = 1 := by simpa using last
  have final : front.length + 1 = (front ++ [middle]).length := by
    rw [List.length_append, List.length_singleton]
  rw [ratiosWithout, eraseIdx_last, if_pos final, List.dropLast_concat, eraseIdx_among]

variable {s : Split ℚ} {front back : List (Area ℚ)} {first second : Area ℚ}

theorem placed_besides (ordered : Ordered s.ratios)
    (placed : s.children.map Area.rect = s.rect.cut s.direction s.ratios)
    (children : s.children = front ++ first :: second :: back) {before after : List ℚ}
    {middle finish : ℚ} (ratios : s.ratios = before ++ middle :: finish :: after)
    (size : before.length = front.length) :
    front.map Area.rect = s.rect.cutFrom s.direction 0 before ∧
      first.rect = s.rect.slab s.direction (before.getLastD 0) (middle - before.getLastD 0) ∧
      second.rect = s.rect.slab s.direction middle (finish - middle) ∧
      back.map Area.rect = s.rect.cutFrom s.direction finish after := by
  have ascending := Exact.pairwise_zero ordered
  rw [ratios] at ascending
  rw [children, ratios, Rect.cut_adjacent ascending, List.map_append] at placed
  have lengths : (front.map Area.rect).length =
      (s.rect.cutFrom s.direction 0 before).length := by
    rw [List.length_map, Rect.length_cutFrom, size]
  obtain ⟨fronts, rest⟩ := List.append_inj placed lengths
  obtain ⟨left, rest⟩ := List.cons.inj rest
  obtain ⟨right, backs⟩ := List.cons.inj rest
  exact ⟨fronts, left, right, backs⟩

/-- Without the boundary between two neighbours their hull is a part, and the other parts
are as before. -/
theorem cut_without (sound : s.toArea.Sound Regime.ordered config next) (nonneg : s.rect.Nonneg)
    (children : s.children = front ++ first :: second :: back) :
    s.rect.cut s.direction (s.ratios.eraseIdx front.length) =
      front.map Area.rect ++ first.rect.hull second.rect :: back.map Area.rect ∧
    ∀ p, p ∈ first.rect.hull second.rect ↔ p ∈ first.rect ∨ p ∈ second.rect := by
  have layable := Layable.of_sound sound
  have inside : front.length + 1 < s.ratios.length := by
    rw [← layable.count, children, List.length_append, List.length_cons, List.length_cons]
    omega
  obtain ⟨before, after, middle, finish, ratios, place⟩ := exists_adjacent inside
  obtain ⟨fronts, left, right, backs⟩ :=
    placed_besides layable.ratios sound.placed children ratios place
  have ascending := Exact.pairwise_zero layable.ratios
  rw [ratios] at ascending
  obtain ⟨merged, union⟩ := Rect.cut_merged (nonneg s.direction) ascending
  rw [fronts, left, right, backs]
  refine ⟨?_, union⟩
  rw [ratios, ← place, eraseIdx_among, merged]

/-- One of two neighbours gets their hull when the other is gone; nobody else moves. -/
theorem relayout_merged (sound : s.toArea.Sound Regime.ordered config next)
    (nonneg : s.rect.Nonneg) (children : s.children = front ++ first :: second :: back)
    (heir : Area ℚ) :
    (relayout { s with
        children := front ++ heir :: back
        ratios := s.ratios.eraseIdx front.length }).children =
      front ++ heir.resize (first.rect.hull second.rect) :: back := by
  have still : ∀ area ∈ front ++ back, area.resize area.rect = area := by
    intro area listed
    have member : area ∈ s.children := children ▸ mem_of_mem_besides listed
    exact (sound.child member).resize_eq
  simp only [relayout, (cut_without sound nonneg children).1]
  exact Area.resizeEach_among heir _ still

end Split

/-! ## Taking a child out -/

namespace Step

section Heirs

variable {K : Type}

/-- The position of the child that takes over the place of the step's child: the
next one, or the previous one at the end. -/
def heirIndex (step : Step K) : Nat :=
  if step.index + 1 < step.split.children.length then step.index + 1 else step.index - 1

def inherited (step : Step K) (heir : Area K) : List (Area K) :=
  (step.split.children.set step.heirIndex heir).eraseIdx step.index

end Heirs

/-- The child next to the one that is taken out gets the hull of both places, which they
fill, and the other children stay. -/
structure TakesOver (step : Step ℚ) (removed heir : Area ℚ) : Prop where
  beside : step.split.children[step.heirIndex]? = some heir
  children : (step.split.removeChild step.index).state.children =
    step.inherited (heir.resize (removed.rect.hull heir.rect))
  union : ∀ p, p ∈ removed.rect.hull heir.rect ↔ p ∈ removed.rect ∨ p ∈ heir.rect

variable {step : Step ℚ} {removed : Area ℚ}

theorem takesOver_next (present : step.split.children[step.index]? = some removed)
    (sound : step.split.toArea.Sound Regime.ordered config next)
    (nonneg : step.split.rect.Nonneg)
    (further : step.index + 1 < step.split.children.length) :
    ∃ heir, step.TakesOver removed heir := by
  have inside := Path.Leads.index_lt present
  have count := (Split.Layable.of_sound sound).count
  obtain ⟨front, back, first, heir, children, place⟩ := exists_adjacent further
  obtain rfl : first = removed := by
    rw [children, ← place] at present
    simpa using present
  have index : step.heirIndex = front.length + 1 := by rw [heirIndex, if_pos further, place]
  have ratios : Split.ratiosWithout step.split.ratios step.index =
      step.split.ratios.eraseIdx front.length := by
    have erased : (step.split.ratios.eraseIdx step.index).length =
        step.split.ratios.length - 1 := List.length_eraseIdx_of_lt (count ▸ inside)
    rw [Split.ratiosWithout, if_neg (by omega), place]
  have others : step.split.children.eraseIdx step.index = front ++ heir :: back := by
    rw [children, ← place, eraseIdx_among]
  refine ⟨heir, ?_, ?_, (Split.cut_without sound nonneg children).2⟩
  · rw [children, index]
    simp
  · have replaced : (front ++ first :: heir :: back).set (front.length + 1)
        (heir.resize (first.rect.hull heir.rect)) =
        front ++ first :: heir.resize (first.rect.hull heir.rect) :: back := by simp
    rw [Split.removeChild_state step.split inside (by omega), others, ratios,
      Split.relayout_merged sound nonneg children, inherited, index, children, replaced, ← place,
      eraseIdx_among]

theorem takesOver_last (present : step.split.children[step.index]? = some removed)
    (sound : step.split.toArea.Sound Regime.ordered config next)
    (nonneg : step.split.rect.Nonneg) (several : step.split.children.length ≠ 1)
    (last : ¬ step.index + 1 < step.split.children.length) :
    ∃ heir, step.TakesOver removed heir := by
  have inside := Path.Leads.index_lt present
  have layable := Split.Layable.of_sound sound
  obtain ⟨early, same⟩ : ∃ early, step.index = early + 1 := ⟨step.index - 1, by omega⟩
  obtain ⟨front, back, heir, second, children, place⟩ := exists_adjacent (same ▸ inside)
  have size : step.split.children.length = front.length + (back.length + 2) := by
    rw [children, List.length_append, List.length_cons, List.length_cons]
  have count : step.split.children.length = step.split.ratios.length := layable.count
  obtain rfl : back = [] := List.length_eq_zero_iff.mp (by omega)
  obtain rfl : second = removed := by
    rw [children, same, ← place] at present
    simpa using present
  have index : step.heirIndex = front.length := by
    rw [heirIndex, if_neg last]
    omega
  have ratios : Split.ratiosWithout step.split.ratios step.index =
      step.split.ratios.eraseIdx front.length := by
    rw [same, place]
    exact Split.ratiosWithout_last layable.ratios.last (by omega)
  have others : step.split.children.eraseIdx step.index = front ++ [heir] := by
    rw [children, same, ← place, eraseIdx_last]
  refine ⟨heir, ?_, ?_, ?_⟩
  · rw [children, index]
    simp
  · have replaced : (front ++ [heir, second]).set front.length
        (heir.resize (heir.rect.hull second.rect)) =
        front ++ [heir.resize (heir.rect.hull second.rect), second] := by simp
    rw [Rect.hull_comm, Split.removeChild_state step.split inside several, others, ratios,
      Split.relayout_merged sound nonneg children, inherited, index, children, replaced, same,
      ← place, eraseIdx_last]
  · intro p
    rw [Rect.hull_comm, (Split.cut_without sound nonneg children).2 p]
    exact or_comm

theorem exists_takesOver (present : step.split.children[step.index]? = some removed)
    (sound : step.split.toArea.Sound Regime.ordered config next)
    (nonneg : step.split.rect.Nonneg) (several : step.split.children.length ≠ 1) :
    ∃ heir, step.TakesOver removed heir := by
  by_cases further : step.index + 1 < step.split.children.length
  · exact takesOver_next present sound nonneg further
  · exact takesOver_last present sound nonneg several further

end Step

/-! ## Panels along a route -/

section Panels

variable {K : Type}

def Step.panelsBefore (step : Step K) : List (Container K) :=
  (step.split.children.take step.index).flatMap Area.containers

def Step.panelsAfter (step : Step K) : List (Container K) :=
  (step.split.children.drop (step.index + 1)).flatMap Area.containers

def Path.panelsBefore : Path K → List (Container K)
  | [] => []
  | step :: rest => step.panelsBefore ++ Path.panelsBefore rest

def Path.panelsAfter : Path K → List (Container K)
  | [] => []
  | step :: rest => Path.panelsAfter rest ++ step.panelsAfter

theorem Step.containers_eq {step : Step K} {child : Area K}
    (present : step.split.children[step.index]? = some child) :
    step.split.toArea.containers = step.panelsBefore ++ child.containers ++ step.panelsAfter := by
  rw [Split.toArea, Area.containers_split, flatMap_children present]
  rfl

theorem Step.containers_set {step : Step K} {child : Area K}
    (present : step.split.children[step.index]? = some child) (new : Area K) :
    (step.split.children.set step.index new).flatMap Area.containers =
      step.panelsBefore ++ new.containers ++ step.panelsAfter := by
  rw [flatMap_set present]
  rfl

theorem Area.rects_split (frame : Partition K) (children : List (Area K)) :
    (split frame children).preorder.map rect =
      frame.rect :: children.flatMap fun child => child.preorder.map rect := by
  rw [preorder, preorderEach_eq, List.map_cons, List.map_flatMap]
  rfl

theorem Path.Leads.rects_put {path : Path K} {root target new : Area K}
    (leads : path.Leads root target)
    (same : new.preorder.map Area.rect = target.preorder.map Area.rect) :
    (path.put new).preorder.map Area.rect = root.preorder.map Area.rect := by
  induction leads with
  | here area => exact same
  | @down step rest child target present onward ih =>
    rw [put_cons, Step.put, Split.toArea, Area.rects_split, Area.rects_split,
      Step.flatMap_set present, Step.flatMap_children present, ih same]

end Panels

/-! ## Tidying -/

/-- What is left is an area in its place with these panels, or a split in that place
whose only child it is. -/
inductive Remains.StandsFor (config : Config ℚ) (next : Int) (rect : Rect ℚ)
    (panels : List (Container ℚ)) : Remains ℚ → Prop
  | kept {area : Area ℚ} (sound : area.Sound Regime.ordered config next)
      (place : area.rect = rect) (holds : area.containers = panels) :
      Remains.StandsFor config next rect panels (.kept area)
  | lone {split : Split ℚ} {survivor : Area ℚ} (only : split.children = [survivor])
      (frame : split.rect = rect) (sound : survivor.Sound Regime.ordered config next)
      (place : survivor.rect = rect) (holds : survivor.containers = panels) :
      Remains.StandsFor config next rect panels (.lone split)

namespace Step

variable {step : Step ℚ} {child : Area ℚ}

theorem tidy_nothing (present : step.split.children[step.index]? = some child)
    (sound : step.split.toArea.Sound Regime.ordered config next)
    (nonneg : step.split.rect.Nonneg) (several : step.split.children.length ≠ 1)
    (events : List (Event ℚ)) :
    ∃ heir, step.TakesOver child heir ∧
      (step.tidy (.nothing, events)).1.StandsFor config next step.split.rect
        ((step.inherited (heir.resize (child.rect.hull heir.rect))).flatMap Area.containers) := by
  obtain ⟨heir, takes⟩ := exists_takesOver present sound nonneg several
  refine ⟨heir, takes, ?_⟩
  have whole := (layable_without present sound several).relayout
  rw [← Split.removeChild_state step.split (Path.Leads.index_lt present) several] at whole
  have place : (step.split.removeChild step.index).state.rect = step.split.rect := by
    rw [Split.removeChild_state step.split (Path.Leads.index_lt present) several]
    rfl
  simp only [tidy, if_neg several, ← takes.children]
  generalize (step.split.removeChild step.index).state = rest at whole place
  split
  · rename_i single
    obtain ⟨survivor, only⟩ := List.length_eq_one_iff.mp single
    have alone : (Area.split rest.toPartition [survivor]).Sound Regime.ordered config next := by
      rw [← only]
      exact whole
    refine .lone only place (alone.child (List.mem_singleton_self survivor))
      (alone.rect_of_only.trans place) ?_
    rw [only, List.flatMap_singleton]
  · refine .kept whole place ?_
    rw [Split.toArea, Area.containers_split]

/-- The children of a survivor that is cut along the same axis already lie where the
split that takes them in would put them. -/
theorem sound_spliced (inner : Split ℚ)
    (present : step.split.children[step.index]? = some child)
    (sound : step.split.toArea.Sound Regime.ordered config next)
    (nonneg : step.split.rect.Nonneg)
    (survives : inner.toArea.Sound Regime.ordered config next)
    (aligned : inner.direction = step.split.direction) (place : inner.rect = child.rect) :
    (Split.toArea { step.split with
      children := step.split.children.take step.index ++ inner.children ++
        step.split.children.drop (step.index + 1)
      ratios := step.split.splicedRatios step.index inner.children }).Sound
        Regime.ordered config next := by
  have layable := layable_spliced inner present sound survives aligned
  have room : inner.rect.Nonneg := by
    rw [place]
    exact sound.nonneg_child nonneg (Path.Leads.member present)
  have parts := Split.cut_splicedRatios inner present (Split.Layable.of_sound sound).ratios
    sound.placed (Split.Layable.of_sound survives).ratios aligned survives.placed place
    (room inner.direction)
  exact .split layable.ratios layable.room parts.symm layable.known layable.each

/-- A survivor, or each of its children, is put where it already lies. -/
theorem containers_absorb {survivor : Area ℚ} {lone : Split ℚ}
    (present : step.split.children[step.index]? = some child)
    (sound : step.split.toArea.Sound Regime.ordered config next)
    (nonneg : step.split.rect.Nonneg) (only : lone.children = [survivor])
    (survives : survivor.Sound Regime.ordered config next) (place : survivor.rect = child.rect) :
    (step.split.absorb step.index lone).1.toArea.containers =
      step.panelsBefore ++ survivor.containers ++ step.panelsAfter := by
  have inside := Path.Leads.index_lt present
  rcases step.split.absorb_cases step.index only with
    ⟨frame, children, rfl, aligned, spliced⟩ | replaced
  · have listed : children ≠ [] := survives.filled.children_ne_nil
    have still := Split.relayout_of_sound
      (sound_spliced ⟨frame, children⟩ present sound nonneg survives aligned place)
    rw [Split.splicedRatios] at still
    rw [spliced, Split.expandChild_state step.split inside listed, still, Split.toArea,
      Area.containers_split, Area.containers_split, List.flatMap_append, List.flatMap_append]
    rfl
  · have put : (step.put survivor).Sound Regime.ordered config next :=
      sound_put present sound survives place
    have still := Split.relayout_of_sound
      (s := { step.split with children := step.split.children.set step.index survivor }) put
    rw [replaced, Split.replaceChild_state step.split inside, still, Split.toArea,
      Area.containers_split, containers_set present]

/-- Tidying a step moves none of the panels that are left. -/
theorem tidy_standsFor (present : step.split.children[step.index]? = some child)
    (sound : step.split.toArea.Sound Regime.ordered config next)
    (nonneg : step.split.rect.Nonneg) {below : Remains ℚ × List (Event ℚ)}
    {panels : List (Container ℚ)} (left : below.1.StandsFor config next child.rect panels) :
    (step.tidy below).1.StandsFor config next step.split.rect
      (step.panelsBefore ++ panels ++ step.panelsAfter) := by
  obtain ⟨remains, events⟩ := below
  cases left with
  | kept fresh place holds =>
    refine .kept (sound_put present sound fresh place) rfl ?_
    rw [put, Area.containers_split, containers_set present, holds]
  | lone only frame survives place holds =>
    obtain ⟨whole, same⟩ := sound_absorb present sound only survives
    have panels := containers_absorb present sound nonneg only survives place
    rw [holds] at panels
    exact .kept whole same panels

end Step

theorem Remains.StandsFor.root {rect : Rect ℚ} {panels : List (Container ℚ)}
    {below : Remains ℚ × List (Event ℚ)} (left : below.1.StandsFor config next rect panels) :
    ∃ root, (Remains.root below).1 = some root ∧ root.containers = panels := by
  obtain ⟨remains, events⟩ := below
  cases left with
  | @kept area sound place holds => exact ⟨area, rfl, holds⟩
  | @lone split survivor only frame sound place holds =>
    refine ⟨survivor, ?_, holds⟩
    rw [Remains.root, only, List.head?_cons, Option.map_some, frame, ← place, sound.resize_eq]

/-! ## Vacating -/

namespace Path.Leads

variable {path : Path ℚ} {root target : Area ℚ}

theorem containers_of_single (leads : path.Leads root target)
    (single : ∀ step ∈ path, step.split.children.length = 1) :
    root.containers = target.containers := by
  induction leads with
  | here area => rfl
  | @down step rest child target present onward ih =>
    obtain ⟨only, children⟩ := List.length_eq_one_iff.mp (single step List.mem_cons_self)
    have same : only = child := by
      have listed := member present
      rw [children] at listed
      exact (List.mem_singleton.mp listed).symm
    rw [Split.toArea, Area.containers_split, children, List.flatMap_singleton, same]
    exact ih fun later listed => single later (List.mem_cons_of_mem step listed)

/-- A chain of splits with one child each goes with the area at its end. -/
theorem vacate_of_single (leads : path.Leads root target)
    (single : ∀ step ∈ path, step.split.children.length = 1) :
    ∃ events, path.vacate = (.nothing, events) := by
  induction leads with
  | here area => exact ⟨[], rfl⟩
  | @down step rest child target present onward ih =>
    obtain ⟨events, below⟩ :=
      ih fun later listed => single later (List.mem_cons_of_mem step listed)
    rw [vacate_cons, below]
    simp only [Step.tidy, if_pos (single step List.mem_cons_self)]
    exact ⟨_, rfl⟩

end Path.Leads

/-- How an area is taken out of a tree: the splits of the chain go away with it, which
have no other child; the innermost split that has one loses the child that leads there,
and the heir next to it takes over the place. -/
structure Path.Closing (path : Path ℚ) (target : Area ℚ) where
  outer : Path ℚ
  step : Step ℚ
  chain : Path ℚ
  removed : Area ℚ
  heir : Area ℚ
  route : path = outer ++ step :: chain
  present : step.split.children[step.index]? = some removed
  onward : chain.Leads removed target
  single : ∀ lower ∈ chain, lower.split.children.length = 1
  several : step.split.children.length ≠ 1
  beside : step.split.children[step.heirIndex]? = some heir

namespace Path.Closing

variable {path : Path ℚ} {target : Area ℚ} (closing : path.Closing target)

def place : Rect ℚ := closing.removed.rect.hull closing.heir.rect

def panels : List (Container ℚ) :=
  closing.outer.panelsBefore ++ closing.step.split.children.flatMap Area.containers ++
    closing.outer.panelsAfter

/-- Those that go away are gone, and the heir has the whole place. -/
def panelsLeft : List (Container ℚ) :=
  closing.outer.panelsBefore ++
    (closing.step.inherited (closing.heir.resize closing.place)).flatMap Area.containers ++
      closing.outer.panelsAfter

def below (step : Step ℚ) : Path.Closing (step :: path) target :=
  { closing with
    outer := step :: closing.outer
    route := congrArg (step :: ·) closing.route }

theorem panels_below (step : Step ℚ) :
    (closing.below step).panels = step.panelsBefore ++ closing.panels ++ step.panelsAfter := by
  simp only [panels, below, panelsBefore, panelsAfter, List.append_assoc]

theorem panelsLeft_below (step : Step ℚ) :
    (closing.below step).panelsLeft =
      step.panelsBefore ++ closing.panelsLeft ++ step.panelsAfter := by
  simp only [panelsLeft, place, below, panelsBefore, panelsAfter, List.append_assoc]

/-- Nothing but the target goes away. -/
theorem containers_removed : closing.removed.containers = target.containers :=
  closing.onward.containers_of_single closing.single

end Path.Closing

/-- Unless the whole tree goes away, what is left of it stands for the heir in its new
place among the panels that have not moved. -/
theorem Path.Leads.vacate_standsFor {path : Path ℚ} {root target : Area ℚ}
    (leads : path.Leads root target) (sound : root.Sound Regime.ordered config next)
    (nonneg : root.rect.Nonneg) :
    (∀ step ∈ path, step.split.children.length = 1) ∨
      ∃ closing : path.Closing target,
        (∀ p, p ∈ closing.place ↔ p ∈ closing.removed.rect ∨ p ∈ closing.heir.rect) ∧
        root.containers = closing.panels ∧
        path.vacate.1.StandsFor config next root.rect closing.panelsLeft := by
  induction leads with
  | here area => exact .inl fun step listed => nomatch listed
  | @down step rest child target present onward ih =>
    rcases ih (sound.child (member present)) (sound.nonneg_child nonneg (member present)) with
      single | ⟨closing, union, before, left⟩
    · by_cases only : step.split.children.length = 1
      · left
        intro other listed
        rcases List.mem_cons.mp listed with rfl | later
        · exact only
        · exact single other later
      · right
        obtain ⟨events, nothing⟩ := onward.vacate_of_single single
        obtain ⟨heir, takes, left⟩ := Step.tidy_nothing present sound nonneg only events
        refine ⟨⟨[], step, rest, child, heir, rfl, present, onward, single, only, takes.beside⟩,
          takes.union, ?_, ?_⟩
        · simp only [Closing.panels, panelsBefore, panelsAfter, List.nil_append, List.append_nil]
          rw [Split.toArea, Area.containers_split]
        · simp only [Closing.panelsLeft, panelsBefore, panelsAfter, List.nil_append,
            List.append_nil]
          rw [vacate_cons, nothing]
          exact left
    · right
      refine ⟨closing.below step, union, ?_, ?_⟩
      · rw [Step.containers_eq present, before, closing.panels_below]
      · rw [vacate_cons, closing.panelsLeft_below]
        exact Step.tidy_standsFor present sound nonneg left

end DockLayout
