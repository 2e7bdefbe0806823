import DockLayout.Scalar

/-!
# JSON values

Whole numbers and other numbers are different values, as they are in a layout
file, and the members of an object keep their order.
-/

set_option autoImplicit false

namespace DockLayout

inductive Json (K : Type) where
  | null
  | bool (value : Bool)
  | int (value : Int)
  | real (value : K)
  | str (value : Text)
  | arr (items : List (Json K))
  | obj (entries : List (Text × Json K))

instance {K : Type} : Inhabited (Json K) := ⟨.null⟩

namespace Json

/-- The kinds of value that messages tell apart. -/
inductive Kind where
  | null
  | bool
  | int
  | real
  | str
  | arr
  | obj
deriving DecidableEq

variable {K : Type}

def kind : Json K → Kind
  | .null => .null
  | .bool _ => .bool
  | .int _ => .int
  | .real _ => .real
  | .str _ => .str
  | .arr _ => .arr
  | .obj _ => .obj

def find? (key : Text) : List (Text × Json K) → Option (Json K)
  | [] => none
  | (name, value) :: rest => if name = key then some value else find? key rest

/-- A later entry with the same key gives its value to the earlier one. -/
def put (key : Text) (value : Json K) : List (Text × Json K) → List (Text × Json K)
  | [] => [(key, value)]
  | (name, old) :: rest =>
      if name = key then (name, value) :: rest else (name, old) :: put key value rest

end Json

end DockLayout
