import DockLayout.LayoutError

/-!
# Configuration

The constants of a layout and the values a user may set, with the checks on
them in the order in which they are reported.
-/

set_option autoImplicit false

namespace DockLayout

section Constants

variable (K : Type) [Scalar K]

def sizerThickness : K := 8.0

/-- The least value of every ratio but the last. -/
def minRatio : K := 0.01

def maxRatio : K := 0.99

def standardHeaderHeight : K := 20.0

def standardEdgeFraction : K := 0.25

end Constants

structure Config (K : Type) where
  headerHeight : K
  dropEdgeFraction : K
  /-- The share an existing panel keeps when it is split. -/
  defaultSplitRatio : K
  /-- Whether events are logged. -/
  debug : Bool
deriving DecidableEq

namespace Config

variable {K : Type} [Scalar K]

def standard : Config K where
  headerHeight := standardHeaderHeight K
  dropEdgeFraction := standardEdgeFraction K
  defaultSplitRatio := 0.5
  debug := false

def check (config : Config K) : Except (LayoutError K) (Config K) :=
  if config.headerHeight < 0 then
    .error (.headerHeight config.headerHeight)
  else if ¬ (0 < config.dropEdgeFraction ∧ config.dropEdgeFraction < 0.5) then
    .error (.dropEdgeFraction config.dropEdgeFraction)
  else if ¬ (minRatio K ≤ config.defaultSplitRatio ∧ config.defaultSplitRatio ≤ maxRatio K) then
    .error (.defaultSplitRatio config.defaultSplitRatio)
  else .ok config

end Config

end DockLayout
