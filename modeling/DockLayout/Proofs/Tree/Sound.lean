import DockLayout.Proofs.Tree.Regime

/-!
# Sound trees

In a sound tree every container shows one of its docks and has the settings of
the workspace, every split has a handle that was given out and ratios that its
regime admits, and the children of a split lie where its ratios put them. What
lies below a route can be exchanged for anything sound in the same place.
-/

set_option autoImplicit false

namespace DockLayout

variable {K : Type} [Scalar K] {regime : Regime K} {config : Config K} {next : Int}

namespace Area

inductive Sound (regime : Regime K) (config : Config K) (next : Int) : Area K → Prop
  | container {panel : Container K} (shown : panel.active < panel.docks.length)
      (header : panel.headerHeight = config.headerHeight)
      (edge : panel.dropEdgeFraction = config.dropEdgeFraction)
      (room : regime.Room panel.rect) : Sound regime config next (.container panel)
  | split {frame : Partition K} {children : List (Area K)}
      (ratios : regime.Ratios frame.ratios) (room : regime.Room frame.rect)
      (placed : children.map Area.rect = frame.rect.cut frame.direction frame.ratios)
      (known : frame.handle.value < next)
      (each : ∀ child ∈ children, Sound regime config next child) :
      Sound regime config next (.split frame children)

namespace Sound

theorem room {area : Area K} (sound : area.Sound regime config next) : regime.Room area.rect := by
  cases sound with
  | container shown header edge room => exact room
  | split ratios room placed known each => exact room

theorem child {frame : Partition K} {children : List (Area K)} {area : Area K}
    (sound : (Area.split frame children).Sound regime config next) (listed : area ∈ children) :
    area.Sound regime config next := by
  cases sound with
  | split ratios room placed known each => exact each area listed

theorem placed {frame : Partition K} {children : List (Area K)}
    (sound : (Area.split frame children).Sound regime config next) :
    children.map Area.rect = frame.rect.cut frame.direction frame.ratios := by
  cases sound with
  | split ratios room placed known each => exact placed

theorem count {frame : Partition K} {children : List (Area K)}
    (sound : (Area.split frame children).Sound regime config next) :
    children.length = frame.ratios.length := by
  have lengths := congrArg List.length sound.placed
  rwa [List.length_map, Rect.length_cut] at lengths

theorem filled {area : Area K} (sound : area.Sound regime config next) : area.Filled := by
  induction sound with
  | container shown header edge room =>
    refine .container ?_
    intro empty
    rw [empty] at shown
    exact Nat.not_lt_zero _ shown
  | @split frame children ratios room placed known each ih =>
    refine .split ?_ ih
    rintro rfl
    have count := congrArg List.length placed
    rw [List.map_nil, List.length_nil, Rect.length_cut] at count
    exact regime.ratios_ne_nil ratios (List.length_eq_zero_iff.mp count.symm)

/-- What is sound is sound at every depth. -/
theorem of_mem_preorder {area inner : Area K} (sound : area.Sound regime config next)
    (listed : inner ∈ area.preorder) : inner.Sound regime config next := by
  induction sound with
  | container shown header edge room =>
    rw [List.mem_singleton.mp listed]
    exact .container shown header edge room
  | split ratios room placed known each ih =>
    rw [preorder, preorderEach_eq] at listed
    rcases List.mem_cons.mp listed with rfl | below
    · exact .split ratios room placed known each
    · obtain ⟨child, present, inside⟩ := List.mem_flatMap.mp below
      exact ih child present inside

theorem mono {area : Area K} {later : Int} (sound : area.Sound regime config next)
    (more : next ≤ later) : area.Sound regime config later := by
  induction sound with
  | container shown header edge room => exact .container shown header edge room
  | split ratios room placed known each ih =>
    exact .split ratios room placed (Int.lt_of_lt_of_le known more) ih

end Sound

/-! ## Placing -/

theorem map_rect_resizeEach {areas : List (Area K)} {rects : List (Rect K)}
    (count : areas.length = rects.length) : (resizeEach areas rects).map rect = rects := by
  induction areas generalizing rects with
  | nil => simpa [resizeEach] using (List.length_eq_zero_iff.mp count.symm).symm
  | cons area rest ih =>
    cases rects with
    | nil => cases count
    | cons first others =>
      rw [resizeEach, List.map_cons, rect_resize, ih (Nat.succ.inj count)]

theorem resizeEach_mem_of_count {areas : List (Area K)} {rects : List (Rect K)} {area : Area K}
    (count : areas.length = rects.length) (listed : area ∈ resizeEach areas rects) :
    ∃ origin ∈ areas, ∃ rect ∈ rects, area = origin.resize rect := by
  obtain ⟨origin, present, ⟨fewer, -⟩ | placed⟩ := resizeEach_mem listed
  · omega
  · exact ⟨origin, present, placed⟩

theorem Sound.resize {area : Area K} (sound : area.Sound regime config next) {rect : Rect K}
    (room : regime.Room rect) : (area.resize rect).Sound regime config next := by
  induction sound generalizing rect with
  | container shown header edge _ =>
    unfold Area.resize
    exact .container shown header edge room
  | @split frame children ratios _ placed known each ih =>
    have count : children.length = (rect.cut frame.direction frame.ratios).length := by
      have lengths := congrArg List.length placed
      rwa [List.length_map, Rect.length_cut, ← rect.length_cut frame.direction] at lengths
    unfold Area.resize
    refine .split ratios room (map_rect_resizeEach count) known ?_
    intro child listed
    obtain ⟨origin, present, part, given, rfl⟩ := resizeEach_mem_of_count count listed
    exact ih origin present (regime.room_of_cut room ratios given)

/-! ## Placing again -/

theorem resizeEach_resizeEach {areas : List (Area K)} {first second : List (Rect K)}
    (count : first.length = second.length)
    (each : ∀ area ∈ areas, ∀ before after, (area.resize before).resize after =
      area.resize after) :
    resizeEach (resizeEach areas first) second = resizeEach areas second := by
  induction areas generalizing first second with
  | nil => rfl
  | cons area rest ih =>
    cases first with
    | nil =>
      rw [List.length_eq_zero_iff.mp count.symm]
      rfl
    | cons before others =>
      cases second with
      | nil => cases count
      | cons after later =>
        rw [resizeEach, resizeEach, resizeEach, each area List.mem_cons_self,
          ih (Nat.succ.inj count) fun other listed => each other (List.mem_cons_of_mem area listed)]

/-- Only the last rectangle that an area is handed counts. -/
theorem resize_resize (area : Area K) (first second : Rect K) :
    (area.resize first).resize second = area.resize second := by
  induction area generalizing first second with
  | container panel => simp only [resize]
  | split frame children ih =>
    simp only [resize]
    rw [resizeEach_resizeEach (by rw [Rect.length_cut, Rect.length_cut]) ih]

theorem resizeEach_map_eq_iff (edit : Area K → Area K) {areas : List (Area K)} :
    resizeEach (areas.map edit) (areas.map rect) = areas ↔
      ∀ area ∈ areas, (edit area).resize area.rect = area := by
  induction areas with
  | nil => exact iff_of_true rfl (List.forall_mem_nil _)
  | cons area rest ih =>
    rw [List.map_cons, List.map_cons, resizeEach, List.cons.injEq, ih, List.forall_mem_cons]

theorem resizeEach_still {areas : List (Area K)}
    (still : ∀ area ∈ areas, area.resize area.rect = area) :
    resizeEach areas (areas.map rect) = areas := by
  have same := (resizeEach_map_eq_iff id).mpr still
  rwa [List.map_id] at same

theorem resizeEach_append {first : List (Area K)} {rects : List (Rect K)}
    (count : first.length = rects.length) (second : List (Area K)) (others : List (Rect K)) :
    resizeEach (first ++ second) (rects ++ others) =
      resizeEach first rects ++ resizeEach second others := by
  induction first generalizing rects with
  | nil => rw [List.length_eq_zero_iff.mp count.symm, resizeEach, List.nil_append, List.nil_append,
      List.nil_append]
  | cons area rest ih =>
    cases rects with
    | nil => cases count
    | cons rect rects =>
      rw [List.cons_append, List.cons_append, resizeEach, resizeEach, ih (Nat.succ.inj count),
        List.cons_append]

theorem resizeEach_eq_zipWith {areas : List (Area K)} {rects : List (Rect K)}
    (count : areas.length = rects.length) :
    resizeEach areas rects = List.zipWith resize areas rects := by
  induction areas generalizing rects with
  | nil => rw [resizeEach, List.zipWith_nil_left]
  | cons area rest ih =>
    cases rects with
    | nil => cases count
    | cons rect rects => rw [resizeEach, List.zipWith_cons_cons, ih (Nat.succ.inj count)]

theorem resizeEach_between {front middle back : List (Area K)} {rects : List (Rect K)}
    (count : middle.length = rects.length)
    (still : ∀ area ∈ front ++ back, area.resize area.rect = area) :
    resizeEach (front ++ middle ++ back) (front.map rect ++ rects ++ back.map rect) =
      front ++ List.zipWith resize middle rects ++ back := by
  have stillFront : ∀ area ∈ front, area.resize area.rect = area :=
    fun area listed => still area (List.mem_append_left back listed)
  have stillBack : ∀ area ∈ back, area.resize area.rect = area :=
    fun area listed => still area (List.mem_append_right front listed)
  rw [List.append_assoc, List.append_assoc, resizeEach_append (List.length_map rect).symm,
    resizeEach_append count, resizeEach_still stillFront, resizeEach_still stillBack,
    resizeEach_eq_zipWith count, List.append_assoc]

theorem resizeEach_among {front back : List (Area K)} (area : Area K) (rect : Rect K)
    (still : ∀ other ∈ front ++ back, other.resize other.rect = other) :
    resizeEach (front ++ area :: back) (front.map Area.rect ++ rect :: back.map Area.rect) =
      front ++ area.resize rect :: back := by
  have between := @resizeEach_between K _ front [area] back [rect] rfl still
  simpa only [List.zipWith_cons_cons, List.zipWith_nil_left, List.append_assoc,
    List.singleton_append] using between

/-- Every split in the tree has its children where its ratios put them. -/
inductive UpToDate : Area K → Prop
  | container (panel : Container K) : UpToDate (.container panel)
  | split {frame : Partition K} {children : List (Area K)}
      (placed : children.map Area.rect = frame.rect.cut frame.direction frame.ratios)
      (each : ∀ child ∈ children, UpToDate child) : UpToDate (.split frame children)

theorem UpToDate.resize_eq {area : Area K} (upToDate : area.UpToDate) :
    area.resize area.rect = area := by
  induction upToDate with
  | container panel => rw [rect, Area.resize]
  | @split frame children placed each ih =>
    rw [rect, Area.resize, ← placed, resizeEach_still ih]

theorem UpToDate.count {frame : Partition K} {children : List (Area K)}
    (upToDate : (Area.split frame children).UpToDate) : children.length = frame.ratios.length := by
  cases upToDate with
  | split placed each =>
    have lengths := congrArg List.length placed
    rwa [List.length_map, Rect.length_cut] at lengths

theorem UpToDate.resize {area : Area K} (upToDate : area.UpToDate) (rect : Rect K) :
    (area.resize rect).UpToDate := by
  induction upToDate generalizing rect with
  | container panel =>
    unfold Area.resize
    exact .container _
  | @split frame children placed each ih =>
    have count : children.length = (rect.cut frame.direction frame.ratios).length := by
      rw [Rect.length_cut, (UpToDate.split placed each).count]
    unfold Area.resize
    refine .split (map_rect_resizeEach count) ?_
    intro child listed
    obtain ⟨origin, present, part, -, rfl⟩ := resizeEach_mem_of_count count listed
    exact ih origin present part

theorem upToDate_of_containers {areas : List (Area K)}
    (panels : areas.all (fun area => area.container?.isSome) = true) :
    ∀ area ∈ areas, area.UpToDate := by
  intro area listed
  have alone := List.all_eq_true.mp panels area listed
  cases area with
  | container panel => exact .container panel
  | split frame children => cases alone

theorem Sound.upToDate {area : Area K} (sound : area.Sound regime config next) :
    area.UpToDate := by
  induction sound with
  | container shown header edge room => exact .container _
  | split ratios room placed known each ih => exact .split placed ih

/-- A sound tree already lies where its rectangle puts it. -/
theorem Sound.resize_eq {area : Area K} (sound : area.Sound regime config next) :
    area.resize area.rect = area := sound.upToDate.resize_eq

end Area

/-- What makes a split sound once its children are laid out. -/
structure Split.Layable (regime : Regime K) (config : Config K) (next : Int) (s : Split K) :
    Prop where
  ratios : regime.Ratios s.ratios
  room : regime.Room s.rect
  count : s.children.length = s.ratios.length
  known : s.handle.value < next
  each : ∀ child ∈ s.children, child.Sound regime config next

namespace Split

theorem Layable.of_sound {s : Split K} (sound : s.toArea.Sound regime config next) :
    s.Layable regime config next := by
  have count := Area.Sound.count sound
  cases sound with
  | split ratios room placed known each => exact ⟨ratios, room, count, known, each⟩

/-- A split whose children lie where its ratios put them need not lay them out. -/
theorem relayout_of_upToDate {s : Split K} (upToDate : s.toArea.UpToDate) : s.relayout = s := by
  have same := upToDate.resize_eq
  rw [toArea, Area.rect, Area.resize] at same
  have laid : Area.resizeEach s.children (s.rect.cut s.direction s.ratios) = s.children :=
    (Area.split.inj same).2
  rw [Split.relayout, laid]

theorem relayout_of_sound {s : Split K} (sound : s.toArea.Sound regime config next) :
    s.relayout = s :=
  relayout_of_upToDate sound.upToDate

theorem Layable.relayout {s : Split K} (layable : s.Layable regime config next) :
    s.relayout.toArea.Sound regime config next := by
  have count : s.children.length = (s.rect.cut s.direction s.ratios).length := by
    rw [Rect.length_cut, layable.count]
  refine .split layable.ratios layable.room (Area.map_rect_resizeEach count) layable.known ?_
  intro child listed
  obtain ⟨origin, present, part, given, rfl⟩ := Area.resizeEach_mem_of_count count listed
  exact (layable.each origin present).resize
    (regime.room_of_cut layable.room layable.ratios given)

end Split

end DockLayout
