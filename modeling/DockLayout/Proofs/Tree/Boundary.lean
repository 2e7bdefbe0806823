import DockLayout.Proofs.Tree.SoundEdits
import DockLayout.Proofs.Tree.Targets

/-!
# Moving one boundary

A split whose boundary is moved differs from the one before in this ratio and in where its
children lie. Moving the boundary again forgets where it was, in the split and in a tree that
holds the split.
-/

set_option autoImplicit false

namespace DockLayout

variable {K : Type}

theorem Area.putSplitIn_putSplitIn {handle : SplitHandle} {first second : Split K}
    {children : List (Area K)}
    (each : ∀ child ∈ children, (child.putSplit handle first).bind (putSplit handle second) =
      child.putSplit handle second) :
    (putSplitIn handle first children).bind (putSplitIn handle second) =
      putSplitIn handle second children := by
  induction children with
  | nil => rfl
  | cons child rest ih =>
    have here := each child List.mem_cons_self
    have later := ih fun other listed => each other (List.mem_cons_of_mem child listed)
    rw [putSplitIn, putSplitIn]
    cases found : child.findSplit? handle with
    | none =>
      rw [putSplit_eq_none found first, putSplit_eq_none found second]
      simp only [← later]
      cases putSplitIn handle first rest with
      | none => rfl
      | some changed =>
        simp only [Option.map_some, Option.bind_some, putSplitIn, putSplit_eq_none found second]
    | some split =>
      obtain ⟨-, path, -, put⟩ := findSplit?_leads found
      rw [put first, put second, Option.bind_some] at here
      simp only [put first, put second, Option.bind_some, putSplitIn, here]

theorem Area.putSplit_putSplit {handle : SplitHandle} {first second : Split K}
    (named : first.handle = handle) (area : Area K) :
    (area.putSplit handle first).bind (putSplit handle second) = area.putSplit handle second := by
  induction area with
  | container panel => rfl
  | split frame children ih =>
    rw [putSplit, putSplit]
    by_cases same : frame.handle = handle
    · rw [if_pos same, if_pos same, Option.bind_some, Split.toArea, putSplit, if_pos named]
    · rw [if_neg same, if_neg same, ← putSplitIn_putSplitIn ih]
      cases putSplitIn handle first children with
      | none => rfl
      | some changed => simp only [Option.map_some, Option.bind_some, putSplit, if_neg same]

namespace Split

variable [Scalar K]

def withRatio (s : Split K) (index : Nat) (ratio : K) : Split K :=
  relayout { s with ratios := s.ratios.set index ratio }

theorem withRatio_self {regime : Regime K} {config : Config K} {next : Int} {s : Split K}
    (sound : s.toArea.Sound regime config next) {index : Nat} (inside : index < s.ratios.length) :
    s.withRatio index (s.ratios.getD index 0) = s := by
  have same : s.ratios.set index (s.ratios.getD index 0) = s.ratios := by
    rw [List.getD_eq_getElem?_getD, List.getElem?_eq_getElem inside, Option.getD_some,
      List.set_getElem_self]
  rw [withRatio, same]
  exact relayout_of_sound sound

theorem withRatio_withRatio (s : Split K) (index : Nat) (first second : K) :
    (s.withRatio index first).withRatio index second = s.withRatio index second := by
  have count : (s.rect.cut s.direction (s.ratios.set index first)).length =
      (s.rect.cut s.direction (s.ratios.set index second)).length := by
    simp only [Rect.length_cut, List.length_set]
  have children := Area.resizeEach_resizeEach count fun area (_ : area ∈ s.children) =>
    area.resize_resize
  simp only [withRatio, relayout, List.set_set, children]

end Split

end DockLayout
