import DockLayout.Panel.Container
import DockLayout.Proofs.Plane.Slab
import DockLayout.Tree.Split

/-!
# The nearest edge

A drop below the strip of tabs goes to the nearest edge if that is near enough. The new
panel is put along this edge, and reaches the point unless the panel that was there is to
keep more than the edge zone leaves it.
-/

set_option autoImplicit false

namespace DockLayout

/-! ## Distances -/

namespace Rect

variable {r : Rect ℚ} {p : Point ℚ} {direction : Direction}

def fraction (r : Rect ℚ) (direction : Direction) (p : Point ℚ) : ℚ :=
  (p.along direction - r.origin direction) / r.extent direction

/-- How far the point is from the first or the last edge across an axis, as a fraction of
the extent. -/
def distance (r : Rect ℚ) (direction : Direction) (before : Bool) (p : Point ℚ) : ℚ :=
  if before then r.fraction direction p else 1 - r.fraction direction p

theorem extent_pos_of_mem (inside : p ∈ r) (direction : Direction) : 0 < r.extent direction := by
  obtain ⟨⟨above, below⟩, -⟩ := (mem_iff_along direction).mp inside
  linarith

/-- Whether a point of a rectangle lies in a slab is a matter of its fraction. -/
theorem mem_slab_iff_fraction (inside : p ∈ r) {start finish : ℚ} :
    p ∈ r.slab direction start (finish - start) ↔
      start ≤ r.fraction direction p ∧ r.fraction direction p < finish := by
  have positive := extent_pos_of_mem inside direction
  have across := ((mem_iff_along direction).mp inside).2
  rw [mem_slab, fraction, le_div_iff₀ positive, div_lt_iff₀ positive]
  constructor
  · rintro ⟨⟨above, below⟩, -⟩
    exact ⟨by linarith, by linarith⟩
  · rintro ⟨above, below⟩
    exact ⟨⟨by linarith, by linarith⟩, across⟩

theorem fraction_between (inside : p ∈ r) (direction : Direction) :
    0 ≤ r.fraction direction p ∧ r.fraction direction p < 1 := by
  have whole : p ∈ r.slab direction 0 (1 - 0) := by
    rw [sub_zero, slab_whole]
    exact inside
  exact (mem_slab_iff_fraction inside).mp whole

end Rect

/-! ## Zones -/

namespace Container

/-- The strip of tabs lies along the top and is as high as it should be, or as the container. -/
theorem header_eq (panel : Container ℚ) :
    panel.header = ⟨panel.rect.x, panel.rect.y, panel.rect.width,
      min panel.headerHeight panel.rect.height⟩ := by
  rw [header, lesser_eq_min]

variable {panel : Container ℚ} {p : Point ℚ} {direction : Direction}

def FirstNearest (entries : List (ℚ × DropZone)) (chosen : ℚ × DropZone) : Prop :=
  ∃ front back, entries = front ++ chosen :: back ∧
    (∀ entry ∈ front, chosen.1 < entry.1) ∧ ∀ entry ∈ back, chosen.1 ≤ entry.1

namespace FirstNearest

variable {entries rest : List (ℚ × DropZone)} {chosen first next : ℚ × DropZone}

theorem mem (nearest : FirstNearest entries chosen) : chosen ∈ entries := by
  obtain ⟨front, back, rfl, -, -⟩ := nearest
  simp

theorem least (nearest : FirstNearest entries chosen) : ∀ entry ∈ entries, chosen.1 ≤ entry.1 := by
  obtain ⟨front, back, rfl, earlier, later⟩ := nearest
  intro entry listed
  rcases List.mem_append.mp listed with before | other
  · exact (earlier entry before).le
  · rcases List.mem_cons.mp other with rfl | after
    · exact le_refl _
    · exact later entry after

theorem of_closer (nearest : FirstNearest (next :: rest) chosen) (closer : next.1 < first.1) :
    FirstNearest (first :: next :: rest) chosen := by
  have below := (nearest.least next List.mem_cons_self).trans_lt closer
  obtain ⟨front, back, same, earlier, later⟩ := nearest
  exact ⟨first :: front, back, congrArg _ same, List.forall_mem_cons.mpr ⟨below, earlier⟩, later⟩

theorem of_further (nearest : FirstNearest (first :: rest) chosen) (further : first.1 ≤ next.1) :
    FirstNearest (first :: next :: rest) chosen := by
  obtain ⟨front, back, same, earlier, later⟩ := nearest
  cases front with
  | nil =>
    injection same with here after
    subst here after
    exact ⟨[], next :: rest, rfl, earlier, List.forall_mem_cons.mpr ⟨further, later⟩⟩
  | cons entry front =>
    injection same with here after
    subst here after
    obtain ⟨below, between⟩ := List.forall_mem_cons.mp earlier
    exact ⟨first :: next :: front, back, rfl, List.forall_mem_cons.mpr
      ⟨below, List.forall_mem_cons.mpr ⟨below.trans_le further, between⟩⟩, later⟩

end FirstNearest

/-- Going through a list takes the first of its nearest entries. -/
theorem foldl_nearer (rest : List (ℚ × DropZone)) (best : ℚ × DropZone) :
    FirstNearest (best :: rest) (rest.foldl nearer best) := by
  induction rest generalizing best with
  | nil => exact ⟨[], [], rfl, List.forall_mem_nil _, List.forall_mem_nil _⟩
  | cons next rest ih =>
    have later := ih (nearer best next)
    rw [List.foldl_cons]
    by_cases closer : next.1 < best.1
    · have taken : nearer best next = next := if_pos closer
      rw [taken] at later ⊢
      exact later.of_closer closer
    · have kept : nearer best next = best := if_neg closer
      rw [kept] at later ⊢
      exact later.of_further (not_lt.mp closer)

theorem edgeDistances_eq (panel : Container ℚ) (p : Point ℚ) :
    panel.edgeDistances p = [
      (panel.rect.distance .vertical true p, .left),
      (panel.rect.distance .vertical false p, .right),
      (panel.rect.distance .horizontal true p, .top),
      (panel.rect.distance .horizontal false p, .bottom)] := rfl

theorem distance_of_mem {entry : ℚ × DropZone} (listed : entry ∈ panel.edgeDistances p)
    (cuts : entry.2.direction? = some direction) :
    entry.1 = panel.rect.distance direction entry.2.insertsBefore p := by
  rw [edgeDistances_eq] at listed
  simp only [List.mem_cons, List.not_mem_nil, or_false] at listed
  rcases listed with rfl | rfl | rfl | rfl
  all_goals
    cases cuts
    rfl

theorem exists_mem_edgeDistances (panel : Container ℚ) (p : Point ℚ) (direction : Direction)
    (before : Bool) : ∃ zone, (panel.rect.distance direction before p, zone) ∈
      panel.edgeDistances p := by
  rw [edgeDistances_eq]
  match direction, before with
  | .vertical, true => exact ⟨.left, by simp⟩
  | .vertical, false => exact ⟨.right, by simp⟩
  | .horizontal, true => exact ⟨.top, by simp⟩
  | .horizontal, false => exact ⟨.bottom, by simp⟩

/-- The zone is decided by the first of the nearest edges. -/
theorem exists_nearest (panel : Container ℚ) (p : Point ℚ) :
    ∃ entry, FirstNearest (panel.edgeDistances p) entry ∧
      panel.bodyZone p = if entry.1 < panel.dropEdgeFraction then entry.2 else .center :=
  ⟨_, foldl_nearer (panel.edgeDistances p).tail (panel.rect.distance .vertical true p, .left), rfl⟩

/-- A drop at an edge is near enough to it, and not beyond the middle. -/
theorem bodyZone_near (cuts : (panel.bodyZone p).direction? = some direction) :
    panel.rect.distance direction (panel.bodyZone p).insertsBefore p < panel.dropEdgeFraction ∧
      panel.rect.distance direction (panel.bodyZone p).insertsBefore p ≤ 1 / 2 := by
  obtain ⟨entry, nearest, zone⟩ := exists_nearest panel p
  have listed := nearest.mem
  have least := nearest.least
  rw [zone] at cuts ⊢
  split at cuts
  · rename_i close
    rw [if_pos close, ← distance_of_mem listed cuts]
    refine ⟨close, ?_⟩
    obtain ⟨first, one⟩ := exists_mem_edgeDistances panel p direction true
    obtain ⟨last, other⟩ := exists_mem_edgeDistances panel p direction false
    have left : entry.1 ≤ panel.rect.fraction direction p := least _ one
    have right : entry.1 ≤ 1 - panel.rect.fraction direction p := least _ other
    linarith
  · cases cuts

end Container

/-! ## The part along the edge -/

namespace Split

variable {share reach : ℚ}

theorem bounded_eq (share : ℚ) : bounded share = min (max share (1 / 100)) (99 / 100) := by
  rw [bounded, clamp_eq, show minRatio ℚ = 1 / 100 from by decide +kernel,
    show maxRatio ℚ = 99 / 100 from by decide +kernel]

theorem lt_bounded (below : reach < share) (near : reach ≤ 1 / 2) : reach < bounded share := by
  rw [bounded_eq, lt_min_iff]
  exact ⟨below.trans_le (le_max_left _ _), by linarith⟩

theorem bounded_le (above : share ≤ reach) (far : 1 / 2 ≤ reach) : bounded share ≤ reach := by
  rw [bounded_eq]
  exact (min_le_left _ _).trans (max_le above (by linarith))

theorem bounded_between (share : ℚ) : 0 ≤ bounded share ∧ bounded share ≤ 1 := by
  rw [bounded_eq]
  constructor
  · exact le_min ((by norm_num : (0 : ℚ) ≤ 1 / 100).trans (le_max_right _ _)) (by norm_num)
  · exact (min_le_right _ _).trans (by norm_num)

theorem bounded_complement (share : ℚ) : bounded (1 - share) = 1 - bounded share := by
  rw [bounded_eq, bounded_eq, max_def, max_def, min_def, min_def]
  split_ifs <;> linarith

theorem pair_children (direction : Direction) (share : ℚ) (handle : SplitHandle) (rect : Rect ℚ)
    (first second : Area ℚ) :
    (pair direction share handle rect first second).children =
      [first.resize (rect.slab direction 0 (bounded share - 0)),
        second.resize (rect.slab direction (bounded share) (1 - bounded share))] := by
  obtain ⟨nonneg, atMost⟩ := bounded_between share
  have parts : rect.cut direction [bounded share, 1] =
      [rect.slab direction 0 (bounded share - 0),
        rect.slab direction (bounded share) (1 - bounded share)] := by
    rw [Rect.cut, Rect.cutFrom_cons nonneg, Rect.cutFrom_cons atMost]
    rfl
  rw [pair, relayout, parts]
  rfl

theorem pair_eq (direction : Direction) (share : ℚ) (handle : SplitHandle) (rect : Rect ℚ)
    (first second : Area ℚ) :
    pair direction share handle rect first second =
      { handle, direction, ratios := [bounded share, 1], rect
        children := [first.resize (rect.slab direction 0 (bounded share)),
          second.resize (rect.slab direction (bounded share) (1 - bounded share))] } := by
  have children := pair_children direction share handle rect first second
  rw [sub_zero] at children
  rw [← children]
  rfl

end Split

end DockLayout
