import DockLayout.Proofs.Tree.Resizing

/-!
# Going back on a replacement

A container that is replaced by a split of itself and a new one comes back when the new
one is removed. The split is left with one child, which takes its place, and whoever laid
its children out for the container before lays them out in the same way again.
-/

set_option autoImplicit false

namespace DockLayout

variable {K : Type}

/-! ## The way to what was put -/

def Step.onto (step : Step K) (area : Area K) : Step K :=
  { step with
    split := { step.split with children := step.split.children.set step.index area } }

def Path.onto : Path K → Area K → Path K
  | [], _ => []
  | step :: rest, area => step.onto (Path.put rest area) :: Path.onto rest area

theorem Area.locateIn_among {handle : DockHandle} {front back : List (Area K)} {area : Area K}
    {inner : Path K} {panel : Container K}
    (earlier : ∀ other ∈ front, other.locate? handle = none)
    (found : area.locate? handle = some (inner, panel)) (start : Nat) :
    locateIn handle (front ++ area :: back) start =
      some (start + front.length, inner, panel) := by
  induction front generalizing start with
  | nil =>
    rw [List.nil_append, locateIn, found]
    rfl
  | cons first rest ih =>
    have onward := ih (fun other listed => earlier other (List.mem_cons_of_mem first listed))
      (start + 1)
    rw [List.cons_append, locateIn, earlier first List.mem_cons_self]
    simp only [onward, List.length_cons]
    congr 2
    omega

theorem Split.locate?_among {s : Split K} {front back : List (Area K)} {child : Area K}
    (children : s.children = front ++ child :: back) {handle : DockHandle}
    (earlier : ∀ other ∈ front, other.locate? handle = none) {inner : Path K}
    {panel : Container K} (found : child.locate? handle = some (inner, panel)) :
    s.toArea.locate? handle = some (⟨s, front.length⟩ :: inner, panel) := by
  rw [toArea, Area.locate?, children, Area.locateIn_among earlier found 0, Nat.zero_add,
    ← children]

theorem Path.Leads.locate?_put {path : Path K} {root target new : Area K} {handle : DockHandle}
    (leads : path.Leads root target)
    (earlier : ∀ group ∈ path.before, group.holds handle = false) {inner : Path K}
    {panel : Container K} (found : new.locate? handle = some (inner, panel)) :
    (path.put new).locate? handle = some (path.onto new ++ inner, panel) := by
  induction leads with
  | here area => exact found
  | @down step rest child target present onward ih =>
    have below := ih fun group listed => earlier group (List.mem_append_right _ listed)
    have inside := index_lt present
    have skipped : ∀ other ∈ step.split.children.take step.index,
        other.locate? handle = none := by
      intro other listed
      refine Area.locate?_eq_none.mpr fun group member => ?_
      exact earlier group (List.mem_append_left _ (List.mem_flatMap.mpr ⟨other, listed, member⟩))
    have children : (step.onto (rest.put new)).split.children =
        step.split.children.take step.index ++
          rest.put new :: step.split.children.drop (step.index + 1) := by
      rw [Step.onto, List.set_eq_take_append_cons_drop, if_pos inside]
    have search := Split.locate?_among children skipped below
    rwa [List.length_take, Nat.min_eq_left inside.le] at search

/-! ## The way back -/

section Returning

variable [Scalar K] {regime : Regime K} {config : Config K} {next : Int}

theorem Split.relayout_congr {s : Split K} {children : List (Area K)}
    (upToDate : s.toArea.UpToDate)
    (same : children.map Area.unplaced = s.children.map Area.unplaced) :
    relayout { s with children } = s := by
  have count : children.length = s.children.length := by
    rw [← List.length_map Area.unplaced, same, List.length_map]
  have enough : children.length ≤ (s.rect.cut s.direction s.ratios).length := by
    rw [count, Rect.length_cut, upToDate.count]
  have again := Area.resizeEach_congr same enough
  refine Eq.trans ?_ (relayout_of_upToDate upToDate)
  rw [relayout, relayout]
  simp only [again]

structure Split.StandsFor (lone : Split K) (panel : Container K) : Prop where
  place : lone.rect = panel.rect
  survivor : ∃ rect, lone.children = [.container { panel with rect }]

namespace Step

variable {step : Step K} {panel : Container K} {lone : Split K}

omit [Scalar K] in
theorem put_onto {child : Area K} (present : step.split.children[step.index]? = some child)
    (area : Area K) : (step.onto area).put child = step.split.toArea := by
  rw [put, onto, List.set_set]
  exact put_child present

/-- The survivor is laid out where the container was. -/
theorem tidy_onto (present : step.split.children[step.index]? = some (.container panel))
    (sound : step.split.toArea.Sound regime config next) (stands : lone.StandsFor panel)
    (area : Area K) (events : List (Event K)) :
    ((step.onto area).tidy (.lone lone, events)).1 = .kept step.split.toArea := by
  obtain ⟨rect, only⟩ := stands.survivor
  obtain ⟨inside, value⟩ := List.getElem?_eq_some_iff.mp present
  have within : step.index < (step.onto area).split.children.length := by
    rwa [onto, List.length_set]
  have same : (step.split.children.set step.index (.container { panel with rect })).map
      Area.unplaced = step.split.children.map Area.unplaced := by
    have moved : (Area.container { panel with rect }).unplaced =
        (Area.container panel).unplaced := rfl
    rw [List.map_set, moved, ← value, ← List.map_set, List.set_getElem_self]
  have replaced : ((step.onto area).split.absorb step.index lone).1 = step.split := by
    rw [Split.absorb, only]
    simp only
    rw [Split.replaceChild_state _ within]
    simp only [onto, List.set_set]
    exact Split.relayout_congr sound.upToDate same
  rw [tidy]
  exact congrArg (fun merged => Remains.kept (Split.toArea merged)) replaced

end Step

namespace Path.Leads

variable {path inner : Path K} {root target : Area K} {panel : Container K} {lone : Split K}
  {events : List (Event K)}

theorem vacate_onto (leads : path.Leads root target) (ends : target = .container panel)
    (below : path ≠ []) (sound : root.Sound regime config next)
    (left : inner.vacate = (.lone lone, events)) (stands : lone.StandsFor panel)
    (area : Area K) : (path.onto area ++ inner).vacate.1 = .kept root := by
  induction leads with
  | here target => exact absurd rfl below
  | @down step rest child target present onward ih =>
    rw [onto, List.cons_append, vacate_cons]
    cases rest with
    | nil =>
      cases onward with
      | here =>
        rw [onto, List.nil_append, left]
        exact Step.tidy_onto (ends ▸ present) sound stands _ events
    | cons following rest =>
      have kept := ih ends (List.cons_ne_nil _ _) (sound.child (member present))
      rw [Step.tidy, kept]
      exact congrArg Remains.kept (Step.put_onto present _)

/-- When what was put at the end of a route leaves only the container that was there, the
tree is as it was. -/
theorem root_onto (leads : path.Leads root (.container panel))
    (sound : root.Sound regime config next) (left : inner.vacate = (.lone lone, events))
    (stands : lone.StandsFor panel) (area : Area K) :
    (Remains.root (path.onto area ++ inner).vacate).1 = some root := by
  by_cases below : path = []
  · subst below
    obtain ⟨rect, only⟩ := stands.survivor
    cases leads with
    | here =>
      rw [onto, List.nil_append, left, Remains.root, only, stands.place]
      rfl
  · have kept := leads.vacate_onto rfl below sound left stands area
    rw [← Prod.mk.eta (p := vacate _), kept]
    rfl

end Path.Leads

end Returning

end DockLayout
