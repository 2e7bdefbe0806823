import DockLayout.Proofs.Panel.Zone
import DockLayout.Proofs.Tree.HitTest
import DockLayout.Proofs.Workspace.Targets

/-!
# Dropping a dock

A drop target is the answer to a query at a point. Over the rationals a dock that is
dropped on the target is shown at this point afterwards, as a tab or in the new panel
along the nearest edge.
-/

set_option autoImplicit false

namespace DockLayout

namespace Workspace

variable {ws : Workspace ℚ} {p : Point ℚ} {target : DockHandle} {path : Path ℚ}
  {panel : Container ℚ}

theorem dockAt?_of_root {root : Area ℚ} (rooted : ws.root = some root) :
    ws.dockAt? p = root.dockAt? p := by
  rw [dockAt?, rooted]

theorem addTab_shows (sound : ws.Sound Regime.ordered)
    (found : ws.locate? target = some (path, panel)) (inside : p ∈ panel.rect) (dock : Dock ℚ) :
    (ws.addTab target dock).state.dockAt? p = .ok (some dock.handle) := by
  obtain ⟨root, -, leads, -⟩ := locate?_eq_some found
  have rooted : (ws.addTab target dock).state.root =
      some (path.put (.container (panel.appendDock dock))) := by
    rw [addTab, found]
    rfl
  have tree := (sound.addTab target dock).tree _ rooted
  have listed := Area.mem_containers.mpr (leads.mem_put (.container (panel.appendDock dock)))
  have shown : (panel.appendDock dock).activeDock = .ok dock := by
    rw [Container.activeDock, Container.appendDock, List.getElem?_concat_length]
  rw [dockAt?_of_root rooted]
  exact tree.1.dockAt?_of_mem listed inside shown

/-- The panel of a placed dock reaches a point that is nearer to its edge than the share
which the other panel keeps, and not beyond the middle. -/
theorem exists_beside (ws : Workspace ℚ) (inside : p ∈ panel.rect) {direction : Direction}
    {before : Bool} {share : ℚ} (near : panel.rect.distance direction before p < 1 - share)
    (half : panel.rect.distance direction before p ≤ 1 / 2) (dock : Dock ℚ) :
    ∃ rect, p ∈ rect ∧ .container (ws.newContainer dock rect) ∈
      (ws.besides direction panel dock before share).children := by
  obtain ⟨start, finish⟩ := Rect.fraction_between inside direction
  cases before with
  | true =>
    refine ⟨panel.rect.slab direction 0 (Split.bounded (1 - share) - 0), ?_, ?_⟩
    · rw [Rect.mem_slab_iff_fraction inside]
      exact ⟨start, Split.lt_bounded near half⟩
    · rw [besides, if_pos rfl, Split.pair_children]
      exact List.mem_cons_self
  | false =>
    have reached : share ≤ panel.rect.fraction direction p ∧
        1 / 2 ≤ panel.rect.fraction direction p := by
      change 1 - panel.rect.fraction direction p < 1 - share at near
      change 1 - panel.rect.fraction direction p ≤ 1 / 2 at half
      constructor <;> linarith
    refine ⟨panel.rect.slab direction (Split.bounded share) (1 - Split.bounded share), ?_, ?_⟩
    · rw [Rect.mem_slab_iff_fraction inside]
      exact ⟨Split.bounded_le reached.1 reached.2, finish⟩
    · rw [besides, if_neg Bool.false_ne_true, Split.pair_children]
      exact List.mem_cons_of_mem _ List.mem_cons_self

theorem splitBy_shows (sound : ws.Sound Regime.ordered)
    (found : ws.locate? target = some (path, panel)) (inside : p ∈ panel.rect)
    {direction : Direction} {before : Bool}
    (near : panel.rect.distance direction before p < 1 - ws.config.defaultSplitRatio)
    (half : panel.rect.distance direction before p ≤ 1 / 2) (dock : Dock ℚ) :
    (ws.splitBy direction target dock before none).state.dockAt? p = .ok (some dock.handle) := by
  have free : ∀ share ∈ (none : Option ℚ), (Regime.ordered : Regime ℚ).Share share :=
    fun share none => nomatch none
  obtain ⟨root, rooted, leads, state, fresh⟩ := sound.splitBy_eq direction found dock before free
  obtain ⟨tree, -⟩ := sound.newSplitHandle.tree root rooted
  have whole := leads.sound_put tree fresh (ws.rect_besides direction panel dock before _)
  obtain ⟨rect, reached, child⟩ := ws.exists_beside inside near half dock
  -- the new panel is a child of the pair, and the pair is put at the end of the way
  have part := Area.child_mem_preorder child
  have listed : ws.newContainer dock rect ∈
      (path.put (ws.besides direction panel dock before
        ws.config.defaultSplitRatio).toArea).containers :=
    Area.mem_containers.mpr (Area.mem_preorder_trans (leads.mem_put _) part)
  rw [state, dockAt?_of_root rfl]
  exact whole.1.dockAt?_of_mem listed reached rfl

/-- A dock appears where it is dropped, if a panel keeps no more of its place than the
edge zones leave it. -/
theorem dropped_dock_is_shown_at_pointer (ws : Workspace ℚ) (reachable : ws.Reachable)
    (docks : ws.dockHandles.Nodup)
    (share : ws.config.defaultSplitRatio + ws.config.dropEdgeFraction ≤ 1) (p : Point ℚ)
    (target : DropTarget) (aimed : ws.dropTarget? p = .ok (some target)) (dock : Dock ℚ) :
    (ws.dropDock dock target).result = .ok true ∧
      (ws.dropDock dock target).state.dockAt? p = .ok (some dock.handle) := by
  have sound := reachable.ordered
  obtain ⟨path, panel, active, found, -, inside, same⟩ := locate?_of_drop docks aimed
  refine ⟨(dropDock_of_locate? sound.filled found dock).1, ?_⟩
  have edge : panel.dropEdgeFraction = ws.config.dropEdgeFraction := by
    obtain ⟨root, rooted, leads, -⟩ := locate?_eq_some found
    cases leads.sound_target (sound.tree root rooted).1 with
    | container shown header edge room => exact edge
  have zone : target.zone = if p ∈ panel.header then .center else panel.bodyZone p := by
    rw [same]
  rw [dropDock]
  cases cuts : target.zone.direction? with
  | none => exact addTab_shows sound found inside dock
  | some direction =>
    by_cases strip : p ∈ panel.header
    · rw [zone, if_pos strip] at cuts
      cases cuts
    · rw [if_neg strip] at zone
      rw [zone] at cuts ⊢
      obtain ⟨near, half⟩ := Container.bodyZone_near cuts
      rw [edge] at near
      exact splitBy_shows sound found inside (by linarith) half dock

/-- Panels keep three quarters of their place, as much as the edge zones allow. -/
def tiered : Workspace ℚ :=
  let dock (value : Int) : Dock ℚ := ⟨⟨value⟩, .null, none⟩
  let config : Config ℚ := { Config.standard with defaultSplitRatio := 3 / 4 }
  ((Session.start (.empty ⟨0, 0, 1000, 800⟩ config)).run [
    .placeFirst (dock 1),
    .splitBy .vertical ⟨1⟩ (dock 2) false none,
    .splitBy .horizontal ⟨2⟩ (dock 3) true none]).workspace

theorem tiered_reachable : tiered.Reachable := ⟨_, ⟨_, _, .empty _ _, rfl⟩, rfl⟩

/-- A drop on the upper edge of a panel, and one on the strip of tabs of another. -/
theorem dropped_dock_is_shown_at_pointer_of_tiered :
    tiered.Reachable ∧ tiered.dockHandles = [⟨1⟩, ⟨3⟩, ⟨2⟩] ∧
    tiered.dropTarget? ⟨850, 340⟩ = .ok (some ⟨⟨2⟩, .top⟩) ∧
    (tiered.dropDock ⟨⟨4⟩, .null, none⟩ ⟨⟨2⟩, .top⟩).state.dockAt? ⟨850, 340⟩ =
      .ok (some ⟨4⟩) ∧
    tiered.dropTarget? ⟨10, 10⟩ = .ok (some ⟨⟨1⟩, .center⟩) ∧
    (tiered.dropDock ⟨⟨4⟩, .null, none⟩ ⟨⟨1⟩, .center⟩).state.dockAt? ⟨10, 10⟩ =
      .ok (some ⟨4⟩) := by
  have docks : tiered.dockHandles = [⟨1⟩, ⟨3⟩, ⟨2⟩] := by decide +kernel
  have apart : tiered.dockHandles.Nodup := by
    rw [docks]
    decide
  have share : tiered.config.defaultSplitRatio + tiered.config.dropEdgeFraction ≤ 1 := by
    decide +kernel
  have upper : tiered.dropTarget? ⟨850, 340⟩ = .ok (some ⟨⟨2⟩, .top⟩) :=
    Success.toOption_eq_some.mp (by decide +kernel)
  have strip : tiered.dropTarget? ⟨10, 10⟩ = .ok (some ⟨⟨1⟩, .center⟩) :=
    Success.toOption_eq_some.mp (by decide +kernel)
  exact ⟨tiered_reachable, docks, upper,
    (dropped_dock_is_shown_at_pointer tiered tiered_reachable apart share _ _ upper _).2, strip,
    (dropped_dock_is_shown_at_pointer tiered tiered_reachable apart share _ _ strip _).2⟩

end Workspace

end DockLayout
