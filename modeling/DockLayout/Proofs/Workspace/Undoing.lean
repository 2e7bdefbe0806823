import DockLayout.Proofs.Tree.Undoing
import DockLayout.Proofs.Workspace.Move

/-!
# Taking out a dock that was just placed

A dock that is placed beside another is alone in its container, in a split that has come
with it. Taking it out dissolves this split, and leaves the workspace as it was before but
for the number that the split has used up.
-/

set_option autoImplicit false

namespace DockLayout.Workspace

variable {K : Type} [Scalar K] {ws : Workspace K} {panel : Container K} {dock : Dock K}

def stepBeside (ws : Workspace K) (direction : Direction) (panel : Container K) (dock : Dock K)
    (before : Bool) (share : K) : Step K :=
  ⟨ws.besides direction panel dock before share, if before then 0 else 1⟩

/-- Without the placed dock, the split that has come with it has only the panel left. -/
theorem vacate_beside (ws : Workspace K) (direction : Direction) (panel : Container K)
    (dock : Dock K) (before : Bool) (share : K) :
    ∃ lone : Split K, lone.StandsFor panel ∧
      Path.vacate [ws.stepBeside direction panel dock before share] = (.lone lone, []) := by
  cases before with
  | true => exact ⟨_, ⟨rfl, _, rfl⟩, rfl⟩
  | false => exact ⟨_, ⟨rfl, _, rfl⟩, rfl⟩

/-- The placed dock is found in the container that was made for it, unless the panel holds
one of its handle. -/
theorem locate?_beside (ws : Workspace K) (fresh : panel.hasDock dock.handle = false)
    (direction : Direction) (before : Bool) (share : K) :
    ∃ rect, (ws.besides direction panel dock before share).toArea.locate? dock.handle =
      some ([ws.stepBeside direction panel dock before share], ws.newContainer dock rect) := by
  have found (rect : Rect K) : (Area.container (ws.newContainer dock rect)).locate? dock.handle =
      some ([], ws.newContainer dock rect) := by
    simp [Area.locate?, Container.hasDock, newContainer, Container.single]
  have skipped (rect : Rect K) :
      (Area.container { panel with rect }).locate? dock.handle = none := by
    rw [Area.locate?, if_neg]
    exact ne_true_of_eq_false fresh
  cases before with
  | true =>
    obtain ⟨added, kept, children⟩ : ∃ added kept,
        (ws.besides direction panel dock true share).children =
          [] ++ .container (ws.newContainer dock added) ::
            [.container { panel with rect := kept }] := ⟨_, _, rfl⟩
    exact ⟨added, Split.locate?_among children (List.forall_mem_nil _) (found added)⟩
  | false =>
    obtain ⟨kept, added, children⟩ : ∃ kept added,
        (ws.besides direction panel dock false share).children =
          [.container { panel with rect := kept }] ++
            .container (ws.newContainer dock added) :: [] := ⟨_, _, rfl⟩
    have earlier : ∀ other ∈ [Area.container { panel with rect := kept }],
        other.locate? dock.handle = none := List.forall_mem_singleton.mpr (skipped kept)
    exact ⟨added, Split.locate?_among children earlier (found added)⟩

theorem removeDock_of_alone {path : Path K} (found : ws.locate? dock.handle = some (path, panel))
    (alone : panel.docks = [dock]) :
    (ws.removeDock dock.handle).result = .ok (some dock) ∧
      (ws.removeDock dock.handle).state = { ws with root := (Remains.root path.vacate).1 } := by
  refine ⟨?_, (removeDock_of_locate? found).1 (congrArg List.length alone)⟩
  simp [removeDock, found, Container.removeDock, Container.indexOf?, alone, Outcome.publish]

/-- A dock that is placed beside a target and taken out again leaves nothing behind but the
number of the split that has come and gone. -/
theorem removeDock_undoes_splitBy (ws : Workspace K) (reachable : ws.Reachable)
    (direction : Direction) (target : DockHandle) (listed : target ∈ ws.dockHandles)
    (dock : Dock K) (fresh : dock.handle ∉ ws.dockHandles) (before : Bool) (ratio : Option K) :
    let placed := ws.splitBy direction target dock before ratio
    placed.result = .ok true ∧
      (placed.state.removeDock dock.handle).result = .ok (some dock) ∧
      (placed.state.removeDock dock.handle).state = { ws with nextSplit := ws.nextSplit + 1 } := by
  intro placed
  have sound := reachable.sound
  obtain ⟨path, panel, found⟩ := exists_locate? listed
  obtain ⟨root, rooted, leads, groups, -, -⟩ := locate?_eq_some found
  have unheld : ∀ group ∈ ws.groups, group.holds dock.handle = false :=
    fun group member => Bool.eq_false_iff.mpr fun holds =>
      fresh (mem_dockHandles.mpr ⟨group, member, holds⟩)
  have earlier : ∀ group ∈ path.before, group.holds dock.handle = false :=
    fun group member => unheld group (groups ▸ List.mem_append_left _ member)
  have apart : panel.hasDock dock.handle = false :=
    unheld panel.group (groups ▸ List.mem_append_right _ List.mem_cons_self)
  obtain ⟨-, -, -, state, -⟩ := sound.splitBy_eq direction found dock before fun _ _ => trivial
  generalize ratio.getD ws.config.defaultSplitRatio = share at state
  obtain ⟨rect, within⟩ := ws.locate?_beside apart direction before share
  have again : placed.state.locate? dock.handle =
      some (path.onto (ws.besides direction panel dock before share).toArea ++
        [ws.stepBeside direction panel dock before share], ws.newContainer dock rect) := by
    rw [state]
    exact leads.locate?_put earlier within
  obtain ⟨answer, rest⟩ := removeDock_of_alone again rfl
  obtain ⟨lone, stands, left⟩ := ws.vacate_beside direction panel dock before share
  have back := leads.root_onto (sound.tree root rooted).1 left stands
    (ws.besides direction panel dock before share).toArea
  refine ⟨?_, answer, ?_⟩
  · simp only [placed, splitBy, found]
    rfl
  · rw [rest, back, state, ← rooted]
    rfl

/-- The split that comes and goes lies directly below one of the same direction, and its
ratio is out of bounds. -/
theorem removeDock_undoes_splitBy_of_shared :
    shared.Reachable ∧ (⟨2⟩ : DockHandle) ∈ shared.dockHandles ∧
    (⟨4⟩ : DockHandle) ∉ shared.dockHandles ∧
    ((shared.splitBy .vertical ⟨2⟩ ⟨⟨4⟩, .null, none⟩ true (some 7.0)).state.removeDock ⟨4⟩).state =
      { shared with nextSplit := shared.nextSplit + 1 } := by
  have listed : (⟨2⟩ : DockHandle) ∈ shared.dockHandles := by decide +kernel
  have fresh : (⟨4⟩ : DockHandle) ∉ shared.dockHandles := by decide +kernel
  have undone := removeDock_undoes_splitBy shared shared_reachable .vertical ⟨2⟩ listed
    ⟨⟨4⟩, .null, none⟩ fresh true (some 7.0)
  exact ⟨shared_reachable, listed, fresh, undone.2.2⟩

end DockLayout.Workspace
