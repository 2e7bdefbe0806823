import DockLayout.Proofs.Tree.Alternating
import DockLayout.Proofs.Workspace.Closing

/-!
# Alternating workspaces

Taking out a dock never brings a split directly below one of the same axis. A tree in which
the axes alternate goes on alternating, whatever is taken out, and a layout file in which they
do not can only get better by it.
-/

set_option autoImplicit false

namespace DockLayout.Workspace

variable {K : Type}

def Alternating (ws : Workspace K) : Prop := ∀ root ∈ ws.root, root.Alternating

def alignedPairs (ws : Workspace K) : Nat := ws.root.elim 0 Area.alignedPairs

theorem alternating_iff {ws : Workspace K} : ws.Alternating ↔ ws.alignedPairs = 0 := by
  rw [Alternating, alignedPairs]
  cases ws.root with
  | none => simp
  | some root => simp [Area.alternating_iff]

instance decidableAlternating (ws : Workspace K) : Decidable ws.Alternating :=
  decidable_of_iff (ws.alignedPairs = 0) alternating_iff.symm

variable [Scalar K]

theorem alignedPairs_removeDock (ws : Workspace K) (handle : DockHandle) :
    (ws.removeDock handle).state.alignedPairs ≤ ws.alignedPairs := by
  cases found : ws.locate? handle with
  | none =>
    simp only [removeDock, found]
    exact Nat.le_refl _
  | some entry =>
    obtain ⟨path, panel⟩ := entry
    obtain ⟨root, same, leads, -⟩ := locate?_eq_some found
    obtain ⟨emptied, kept⟩ := removeDock_of_locate? found
    have before : ws.alignedPairs = root.alignedPairs := by rw [alignedPairs, same]; rfl
    by_cases last : panel.docks.length = 1
    · rw [emptied last, before, alignedPairs]
      have fewer := leads.fits_vacate.root
      cases left : (Remains.root path.vacate).1 with
      | none => exact Nat.zero_le _
      | some remaining => exact fewer remaining left
    · obtain ⟨docks, active, -, state⟩ := kept last
      have fits : (Area.container { panel with docks, active }).Fits (.container panel) :=
        ⟨rfl, Nat.le_refl _⟩
      rw [state, before]
      exact (leads.fits_put fits).pairs

/-- Taking out a dock keeps an alternating tree alternating, and no tree gets more splits
below others of their axis. That is no matter of leaving the dock where it is. -/
theorem removeDock_keeps_alternating (ws : Workspace K) (handle : DockHandle) :
    let outcome := ws.removeDock handle
    (ws.Alternating → outcome.state.Alternating) ∧
      outcome.state.alignedPairs ≤ ws.alignedPairs ∧
      (ws.Filled → handle ∈ ws.dockHandles → ∃ dock, dock.handle = handle ∧
        outcome.result = .ok (some dock) ∧ (dock :: outcome.state.docks).Perm ws.docks) := by
  intro outcome
  have fewer := ws.alignedPairs_removeDock handle
  refine ⟨?_, fewer, ?_⟩
  · intro alternating
    rw [alternating_iff] at alternating ⊢
    exact Nat.eq_zero_of_le_zero (fewer.trans alternating.le)
  · intro filled listed
    obtain ⟨dock, named, answered, -, left, -⟩ := removeDock_of_mem filled listed
    exact ⟨dock, named, answered, left⟩

/-- A panel above two columns, beside a panel in a column of a column. -/
def layered : Workspace ℚ :=
  let panel (value : Int) : Area ℚ := .container {
    docks := [⟨⟨value⟩, .null, none⟩], active := 0, rect := .zero
    headerHeight := 20, dropEdgeFraction := 1 / 4 }
  let split (value : Int) (direction : Direction) (ratios : List ℚ) (children : List (Area ℚ)) :
      Area ℚ := .split ⟨⟨value⟩, direction, ratios, .zero⟩ children
  { empty .zero .standard with
    root := some (split 1 .vertical [1 / 2, 1] [
      split 2 .horizontal [1 / 2, 1] [panel 1, split 3 .vertical [1 / 2, 1] [panel 2, panel 3]],
      split 4 .vertical [1] [split 5 .vertical [1] [panel 4]]])
    nextSplit := 6, nextDock := 5 }

/-- Without the panel above them, two columns become columns of the root, in an alternating
tree and in one that is not. There the chain stays; without its panel it goes. -/
theorem removeDock_keeps_alternating_of_nested :
    nested.Alternating ∧ nested.Filled ∧ (⟨2⟩ : DockHandle) ∈ nested.dockHandles ∧
    (nested.removeDock ⟨2⟩).state.Alternating ∧
    (∃ dock, dock.handle = ⟨2⟩ ∧ (nested.removeDock ⟨2⟩).result = .ok (some dock) ∧
      (dock :: (nested.removeDock ⟨2⟩).state.docks).Perm nested.docks) ∧
    layered.alignedPairs = 2 ∧ (layered.removeDock ⟨1⟩).state.alignedPairs ≤ 2 ∧
    (layered.removeDock ⟨4⟩).state.Alternating := by
  have alternating : nested.Alternating := by decide +kernel
  have listed : (⟨2⟩ : DockHandle) ∈ nested.dockHandles := by decide +kernel
  have filled := nested_reachable.sound.filled
  have two : layered.alignedPairs = 2 := by decide +kernel
  have gone : (layered.removeDock ⟨4⟩).state.Alternating := by decide +kernel
  obtain ⟨keeps, -, removes⟩ := removeDock_keeps_alternating nested ⟨2⟩
  obtain ⟨-, fewer, -⟩ := removeDock_keeps_alternating layered ⟨1⟩
  exact ⟨alternating, filled, listed, keeps alternating, removes filled listed, two,
    fewer.trans two.le, gone⟩

end DockLayout.Workspace
