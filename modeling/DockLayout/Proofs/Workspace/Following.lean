import DockLayout.Proofs.Panel.Zone
import DockLayout.Proofs.Workspace.Targets

/-!
# Following the pointer

A boundary is dragged by small moves, and each of them stops at the limits of the boundary.
Over the rationals it is under the pointer as long as the pointer has not been beyond these.
What a move was cut short by is missing from then on.
-/

set_option autoImplicit false

namespace DockLayout

/-! ## Limits -/

/-- A value that is kept in a window of some size follows a sum only if nothing is missing
from the sum. -/
theorem window_follows_iff {low high : ℚ} (order : low ≤ high) (first second : ℚ) :
    (∀ way, min (max (first + way) low) high = min (max (second + way) low) high) ↔
      first = second ∨ low = high := by
  have apart {less more : ℚ} (below : less < more) (room : low < high) :
      min (max (less + (high - more)) low) high ≠ min (max (more + (high - more)) low) high := by
    have top : min (max (more + (high - more)) low) high = high := by
      rw [add_sub_cancel, max_eq_left order, min_self]
    have short : max (less + (high - more)) low < high := max_lt (by linarith) room
    rw [top, min_eq_left short.le]
    exact short.ne
  constructor
  · intro follows
    rcases lt_trichotomy first second with less | same | more
    · exact .inr (eq_of_le_of_not_lt order fun room => apart less room (follows _))
    · exact .inl same
    · exact .inr (eq_of_le_of_not_lt order fun room => apart more room (follows _).symm)
  · rintro (rfl | rfl) way
    · rfl
    · rw [min_eq_right (le_max_right _ _), min_eq_right (le_max_right _ _)]

namespace Split

variable {s : Split ℚ} {index : Nat}

/-- The ratio of a boundary that is asked for a ratio: within the bounds first, then between
the neighbouring boundaries. -/
def limited (s : Split ℚ) (index : Nat) (ratio : ℚ) : ℚ :=
  clamp (bounded ratio) (previousRatio s.ratios index) (s.ratios.getD (index + 1) 1)

theorem exists_window (s : Split ℚ) (index : Nat) :
    ∃ low high, low ≤ high ∧ ∀ ratio, s.limited index ratio = min (max ratio low) high := by
  simp only [limited, clamp_eq, bounded_eq]
  generalize previousRatio s.ratios index = start
  generalize s.ratios.getD (index + 1) 1 = finish
  refine ⟨min (max (1 / 100) start) finish, min (max (99 / 100) start) finish, ?_, ?_⟩
  · exact min_le_min_right _ (max_le_max_right _ (by norm_num))
  · intro ratio
    rw [max_min_distrib_right, max_assoc, min_assoc]
    rcases le_total (max (1 / 100) start) finish with inside | beyond
    · rw [min_eq_left inside]
    · have far : finish ≤ max (99 / 100) start :=
        beyond.trans (max_le_max_right _ (by norm_num))
      rw [min_eq_right beyond, min_eq_right far, min_eq_right (le_max_right _ _),
        min_eq_right (beyond.trans (le_max_right _ _))]

def way (s : Split ℚ) (last p : Point ℚ) : ℚ :=
  (p.along s.direction - last.along s.direction) / s.rect.extent s.direction

theorem way_self (s : Split ℚ) (p : Point ℚ) : s.way p p = 0 := by
  rw [way, sub_self, zero_div]

theorem way_add (s : Split ℚ) (first second third : Point ℚ) :
    s.way first second + s.way second third = s.way first third := by
  rw [way, way, way, ← add_div, add_comm, sub_add_sub_cancel]

theorem exists_way (positive : 0 < s.rect.extent s.direction) (last : Point ℚ) (way : ℚ) :
    ∃ p, s.way last p = way := by
  have reach (p : Point ℚ)
      (there : p.along s.direction = last.along s.direction + way * s.rect.extent s.direction) :
      s.way last p = way := by
    rw [Split.way, there, add_sub_cancel_left, mul_div_cancel_right₀ _ positive.ne']
  cases same : s.direction with
  | horizontal =>
    refine ⟨⟨last.x, last.y + way * s.rect.extent s.direction⟩, reach _ ?_⟩
    rw [same]
    rfl
  | vertical =>
    refine ⟨⟨last.x + way * s.rect.extent s.direction, last.y⟩, reach _ ?_⟩
    rw [same]
    rfl

/-- A small move asks for the ratio at the end of its way. -/
theorem movedRatio_eq (positive : 0 < s.rect.extent s.direction) (index : Nat)
    (last p : Point ℚ) : s.movedRatio index ⟨last.x - p.x, last.y - p.y⟩ =
      s.limited index (s.ratios.getD index 0 + s.way last p) := by
  have extended : (s.rect.extent s.direction == 0) = false := by
    rw [beq_eq_false_iff_ne]
    exact positive.ne'
  have moved : s.ratioDelta ⟨last.x - p.x, last.y - p.y⟩ = s.way last p := by
    rw [ratioDelta, extended]
    cases same : s.direction <;> simp [way, same, Point.along]
  rw [movedRatio, moved, limited]

/-- Where small moves from one position to the next take a boundary. -/
def dragged (s : Split ℚ) (index : Nat) (last : Point ℚ) (ratio : ℚ) : List (Point ℚ) → ℚ
  | [] => ratio
  | p :: rest => s.dragged index p (s.limited index (ratio + s.way last p)) rest

theorem dragged_concat (last : Point ℚ) (ratio : ℚ) (earlier : List (Point ℚ)) (p : Point ℚ) :
    s.dragged index last ratio (earlier ++ [p]) =
      s.limited index (s.dragged index last ratio earlier +
        s.way (earlier.getLastD last) p) := by
  induction earlier generalizing last ratio with
  | nil => rfl
  | cons first rest ih =>
    rw [List.cons_append, dragged, dragged, ih, List.getLastD_cons]

/-- Within the limits the moves add up. -/
theorem dragged_of_within {start : Point ℚ} {ratio : ℚ} {earlier : List (Point ℚ)}
    (within : ∀ q ∈ earlier, s.limited index (ratio + s.way start q) = ratio + s.way start q) :
    s.dragged index start ratio earlier = ratio + s.way start (earlier.getLastD start) := by
  induction earlier generalizing start ratio with
  | nil => rw [dragged, List.getLastD_nil, way_self, add_zero]
  | cons first rest ih =>
    have onward (q : Point ℚ) :
        ratio + s.way start first + s.way first q = ratio + s.way start q := by
      rw [add_assoc, way_add]
    rw [dragged, within first List.mem_cons_self, List.getLastD_cons, ih, onward]
    intro q listed
    rw [onward]
    exact within q (List.mem_cons_of_mem first listed)

/-- After some moves the boundary goes on to follow the pointer exactly if nothing is
missing, or if it cannot move at all. -/
theorem dragged_follows_iff (positive : 0 < s.rect.extent s.direction) (index : Nat)
    (start : Point ℚ) (ratio : ℚ) (earlier : List (Point ℚ)) :
    (∀ p, s.dragged index start ratio (earlier ++ [p]) =
        s.limited index (ratio + s.way start p)) ↔
      s.dragged index start ratio earlier = ratio + s.way start (earlier.getLastD start) ∨
        ∀ first second, s.limited index first = s.limited index second := by
  obtain ⟨low, high, room, window⟩ := s.exists_window index
  have follows := window_follows_iff room (s.dragged index start ratio earlier)
    (ratio + s.way start (earlier.getLastD start))
  have pinned : (∀ first second, s.limited index first = s.limited index second) ↔
      low = high := by
    simp only [window]
    constructor
    · intro same
      have ends := same low high
      rw [max_self, min_eq_left room, max_eq_left room, min_self] at ends
      exact ends
    · rintro rfl first second
      rw [min_eq_right (le_max_right _ _), min_eq_right (le_max_right _ _)]
  rw [pinned, ← follows]
  simp only [dragged_concat, window]
  constructor
  · intro every distance
    obtain ⟨p, there⟩ := exists_way positive (earlier.getLastD start) distance
    have here := every p
    rw [← way_add s start (earlier.getLastD start) p, ← add_assoc, there] at here
    exact here
  · intro every p
    rw [← way_add s start (earlier.getLastD start) p, ← add_assoc]
    exact every _

/-- The limits of a boundary do not depend on where it is. -/
theorem limited_of_set {moved : Split ℚ} {ratio : ℚ}
    (ratios : moved.ratios = s.ratios.set index ratio) : moved.limited index = s.limited index := by
  have before : previousRatio moved.ratios index = previousRatio s.ratios index := by
    cases index with
    | zero => rfl
    | succ index => simp [previousRatio, ratios, List.getD_eq_getElem?_getD]
  funext asked
  rw [limited, limited, before, ratios]
  simp [List.getD_eq_getElem?_getD]

end Split

/-! ## Sessions -/

namespace Session

variable {s : Session ℚ} {handle : SplitHandle} {index : Nat} {split : Split ℚ}
  {last : Point ℚ} {ratio : ℚ}

/-- A gesture holds a boundary of a split that is as it was but for this boundary. -/
structure Holds (s : Session ℚ) (handle : SplitHandle) (index : Nat) (split : Split ℚ)
    (last : Point ℚ) (ratio : ℚ) : Prop where
  gesture : s.gesture = some ⟨.resize, .sizer handle index split.direction, last⟩
  found : ∃ moved, s.workspace.findSplit? handle = some moved ∧
    moved.direction = split.direction ∧ moved.rect = split.rect ∧
    moved.ratios = split.ratios.set index ratio

theorem Holds.motion (holds : s.Holds handle index split last ratio)
    (inside : index + 1 < split.ratios.length) (positive : 0 < split.rect.extent split.direction)
    (p : Point ℚ) :
    (s.motion p).state.Holds handle index split p
      (split.limited index (ratio + split.way last p)) := by
  obtain ⟨moved, found, along, place, ratios⟩ := holds.found
  have within : index + 1 < moved.ratios.length := by rwa [ratios, List.length_set]
  obtain ⟨done, again⟩ :=
    Workspace.changeRatio_of_lt found within ⟨last.x - p.x, last.y - p.y⟩
  have extended : 0 < moved.rect.extent moved.direction := by rwa [along, place]
  have here : moved.ratios.getD index 0 = ratio := by
    rw [ratios, List.getD_eq_getElem?_getD, List.getElem?_set_self (by omega), Option.getD_some]
  have asked : moved.movedRatio index ⟨last.x - p.x, last.y - p.y⟩ =
      split.limited index (ratio + split.way last p) := by
    rw [Split.movedRatio_eq extended, here, Split.limited_of_set ratios, Split.way, Split.way,
      along, place]
  rw [asked, ratios, List.set_set] at again
  rw [motion_of_sizer holds.gesture]
  simp only [Outcome.andThen, Session.edit, Outcome.within, done]
  exact ⟨rfl, _, again, along, place, rfl⟩

theorem Holds.run (holds : s.Holds handle index split last ratio)
    (inside : index + 1 < split.ratios.length) (positive : 0 < split.rect.extent split.direction)
    (motions : List (Point ℚ)) :
    (s.run (motions.map .motion)).Holds handle index split (motions.getLastD last)
      (split.dragged index last ratio motions) := by
  induction motions generalizing s last ratio with
  | nil => exact holds
  | cons p rest ih =>
    rw [List.getLastD_cons]
    exact ih (holds.motion inside positive p)

def boundary? (s : Session ℚ) (handle : SplitHandle) (index : Nat) : Option ℚ :=
  (s.workspace.findSplit? handle).map fun split => split.ratios.getD index 0

theorem Holds.boundary? (holds : s.Holds handle index split last ratio)
    (inside : index + 1 < split.ratios.length) : s.boundary? handle index = some ratio := by
  obtain ⟨moved, found, -, -, ratios⟩ := holds.found
  rw [Session.boundary?, found, Option.map_some, ratios, List.getD_eq_getElem?_getD,
    List.getElem?_set_self (by omega), Option.getD_some]

theorem press_holds (idle : s.gesture = none) {start : Point ℚ}
    (grabbed : s.workspace.dragTarget? start = some (.sizer handle index split.direction))
    (found : s.workspace.findSplit? handle = some split)
    (inside : index + 1 < split.ratios.length) :
    (s.press start).state.Holds handle index split start (split.ratios.getD index 0) := by
  have within : index < split.ratios.length := by omega
  rw [press, idle]
  simp only [grabbed]
  refine ⟨rfl, split, found, rfl, rfl, ?_⟩
  rw [List.getD_eq_getElem split.ratios 0 within, List.set_getElem_self]

/-- A boundary that is dragged moves with the pointer, up to the limits. It is where the
pointer asks for it as long as no earlier position was beyond these. From some position on
it is wherever the pointer goes exactly if nothing is missing there, or if the boundary
cannot move at all. -/
theorem boundary_follows_pointer_within_limits (s : Session ℚ) (idle : s.gesture = none)
    (splits : s.workspace.splitHandles.Nodup) (start : Point ℚ) (handle : SplitHandle)
    (index : Nat) (direction : Direction)
    (grabbed : s.workspace.dragTarget? start = some (.sizer handle index direction)) :
    ∃ split, s.workspace.findSplit? handle = some split ∧ split.direction = direction ∧
      index + 1 < split.ratios.length ∧
      (0 < split.rect.extent direction → ∀ earlier : List (Point ℚ),
        let after (motions : List (Point ℚ)) : Option ℚ :=
          (s.run (.press start :: motions.map .motion)).boundary? handle index
        let asked (p : Point ℚ) : ℚ := split.ratios.getD index 0 + split.way start p
        ∃ ratio, after earlier = some ratio ∧
          (∀ p, after (earlier ++ [p]) =
            some (split.limited index (ratio + split.way (earlier.getLastD start) p))) ∧
          ((∀ q ∈ earlier, split.limited index (asked q) = asked q) →
            ∀ p, after (earlier ++ [p]) = some (split.limited index (asked p))) ∧
          ((∀ p, after (earlier ++ [p]) = some (split.limited index (asked p))) ↔
            ratio = asked (earlier.getLastD start) ∨
              ∀ first second, split.limited index first = split.limited index second)) := by
  obtain ⟨split, found, rfl, inside⟩ := Workspace.findSplit?_of_sizer splits grabbed
  refine ⟨split, found, rfl, inside, ?_⟩
  intro positive earlier after asked
  have holds := press_holds idle grabbed found inside
  have reached (motions : List (Point ℚ)) : after motions =
      some (split.dragged index start (split.ratios.getD index 0) motions) :=
    (holds.run inside positive motions).boundary? inside
  refine ⟨_, reached earlier, ?_, ?_, ?_⟩
  · intro p
    rw [reached, Split.dragged_concat]
  · intro within p
    rw [reached, Split.dragged_concat, Split.dragged_of_within within, add_assoc, Split.way_add]
  · simp only [reached, Option.some.injEq]
    exact Split.dragged_follows_iff positive index start (split.ratios.getD index 0) earlier

def halves : Session ℚ :=
  let dock (value : Int) : Dock ℚ := ⟨⟨value⟩, .null, none⟩
  (start (.empty ⟨0, 0, 1000, 800⟩ .standard)).run [
    .placeFirst (dock 1),
    .splitBy .vertical ⟨1⟩ (dock 2) false none]

theorem halves_reachable : halves.Reachable := ⟨_, _, .empty _ _, rfl⟩

/-- A drag by two moves inside the workspace is one by their sum. After one beyond the edge
of the workspace and back the boundary is not where it was grabbed. -/
theorem boundary_follows_pointer_within_limits_of_halves :
    halves.Reachable ∧ halves.workspace.splitHandles = [⟨1⟩] ∧
    halves.workspace.dragTarget? ⟨500, 400⟩ = some (.sizer ⟨1⟩ 0 .vertical) ∧
    (halves.run [.press ⟨500, 400⟩, .motion ⟨600, 400⟩, .motion ⟨700, 400⟩]).boundary? ⟨1⟩ 0 =
      some (7 / 10) ∧
    (halves.run [.press ⟨500, 400⟩, .motion ⟨1100, 400⟩, .motion ⟨500, 400⟩]).boundary? ⟨1⟩ 0 =
      some (39 / 100) ∧
    ∃ split, halves.workspace.findSplit? ⟨1⟩ = some split ∧
      split.limited 0 (split.ratios.getD 0 0 + split.way ⟨500, 400⟩ ⟨500, 400⟩) = 1 / 2 := by
  have splits : halves.workspace.splitHandles = [⟨1⟩] := by decide +kernel
  have grabbed : halves.workspace.dragTarget? ⟨500, 400⟩ = some (.sizer ⟨1⟩ 0 .vertical) := by
    decide +kernel
  have apart : halves.workspace.splitHandles.Nodup := by
    rw [splits]
    decide
  obtain ⟨split, found, along, inside, follows⟩ := boundary_follows_pointer_within_limits halves
    rfl apart ⟨500, 400⟩ ⟨1⟩ 0 .vertical grabbed
  have numbers : ∀ split ∈ halves.workspace.findSplit? ⟨1⟩,
      let asked (p : Point ℚ) : ℚ := split.ratios.getD 0 0 + split.way ⟨500, 400⟩ p
      0 < split.rect.extent .vertical ∧ split.limited 0 (asked ⟨600, 400⟩) = asked ⟨600, 400⟩ ∧
      split.limited 0 (asked ⟨700, 400⟩) = 7 / 10 ∧
      split.limited 0 (asked ⟨1100, 400⟩) = 99 / 100 ∧
      split.limited 0 (99 / 100 + split.way ⟨1100, 400⟩ ⟨500, 400⟩) = 39 / 100 ∧
      split.limited 0 (asked ⟨500, 400⟩) = 1 / 2 := by decide +kernel
  obtain ⟨positive, near, far, edge, back, home⟩ := numbers split found
  refine ⟨halves_reachable, splits, grabbed, ?_, ?_, split, found, home⟩
  · obtain ⟨ratio, -, -, within, -⟩ := follows positive [⟨600, 400⟩]
    have limits : ∀ q ∈ [(⟨600, 400⟩ : Point ℚ)], split.limited 0
        (split.ratios.getD 0 0 + split.way ⟨500, 400⟩ q) =
          split.ratios.getD 0 0 + split.way ⟨500, 400⟩ q := List.forall_mem_singleton.mpr near
    exact (within limits ⟨700, 400⟩).trans (congrArg some far)
  · obtain ⟨-, -, -, direct, -⟩ := follows positive []
    obtain ⟨ratio, reached, onward, -, -⟩ := follows positive [⟨1100, 400⟩]
    have there : ratio = 99 / 100 :=
      (Option.some.inj (reached.symm.trans (direct (List.forall_mem_nil _) ⟨1100, 400⟩))).trans edge
    rw [there] at onward
    exact (onward ⟨500, 400⟩).trans (congrArg some back)

end Session

end DockLayout
