import DockLayout.Json.Field
import DockLayout.Json.Reader
import DockLayout.Panel.Dock

/-!
# Errors

Every refusal by its cause, and the category it belongs to.
-/

set_option autoImplicit false

namespace DockLayout

inductive LayoutError (K : Type) where
  -- Configuration and arguments
  | headerHeight (value : K)
  | dropEdgeFraction (value : K)
  | defaultSplitRatio (value : K)
  | dropZone (value : Json K)
  -- Splits and containers
  | noChildren
  | ratioCount (children ratios : Nat)
  | lastRatio (value : K)
  | decreasingRatios (ratios : List K)
  | childIndex (index : Int) (split : SplitHandle) (children : Nat)
  | boundaryIndex (index : Int) (split : SplitHandle) (boundaries : Nat)
  | onlyChild (split : SplitHandle)
  | noReplacement
  | noActiveDock
  | rootExists
  -- Persisted data
  | field (error : FieldError)
  | splitField (error : FieldError)
  | containerField (error : FieldError)
  | splitHandle (value : Json K)
  | dockHandle (value : Json K)
  | direction (value : Json K)
  | dockData (value : Json K)
  | areaData (value : Json K)
  | areaType (value : Json K)
  | noDocks
  | activeIndex (index : Int)
  | workspaceData (value : Json K)
  | version (value : Json K)
  | text (error : Json.ReadError)
  | missingFile (name : Text)

inductive ErrorCategory where
  | invalidValue
  | indexOutOfRange
  | wrongType
  | numberTooLarge
  | missingKey
  | missingFile
deriving DecidableEq

def FieldError.category : FieldError → ErrorCategory
  | .missing _ => .missingKey
  | .noMembers _ | .keyOfList | .keyOfText | .noElements _ | .noReal _ | .noInteger _ => .wrongType
  | .realText _ | .integerText _ | .integerOfNotANumber => .invalidValue
  | .integerOfInfinity | .integerTooLarge => .numberTooLarge

namespace LayoutError

variable {K : Type}

def ofField {α : Type} (value : Except FieldError α) : Except (LayoutError K) α :=
  value.mapError .field

def category : LayoutError K → ErrorCategory
  | .childIndex .. | .boundaryIndex .. | .noActiveDock => .indexOutOfRange
  | .field error => error.category
  | .missingFile _ => .missingFile
  | _ => .invalidValue

/-- A wrong shape inside a split is reported as the split's. -/
def inSplit : LayoutError K → LayoutError K
  | .field error => if error.isShape then .splitField error else .field error
  | error => error

def inContainer : LayoutError K → LayoutError K
  | .field error => if error.isShape then .containerField error else .field error
  | error => error

end LayoutError

end DockLayout
