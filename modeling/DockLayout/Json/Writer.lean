import DockLayout.Json.Basic
import DockLayout.Decimal.NumberStyle
import DockLayout.Text.Quoted

/-!
# Writing JSON values

`dump` is the text of a layout file: ASCII only, one item a line, two spaces a
level. `compact` is the same text on one line. `inMessage` is the form in which
messages quote a value.
-/

set_option autoImplicit false

namespace DockLayout.Json

def breakLine (level : Nat) : String :=
  String.ofList ('\n' :: List.replicate (2 * level) ' ')

mutual

/-- The value at an indentation level. An empty list or object stays on its
line. -/
def dumpAt (level : Nat) : Json Float → String
  | .null => "null"
  | .bool value => if value then "true" else "false"
  | .int value => toString value
  | .real value => Decimal.stored.write value
  | .str value => value.quoteAscii
  | .arr [] => "[]"
  | .arr (item :: rest) =>
      "[" ++ breakLine (level + 1) ++ dumpAt (level + 1) item ++ dumpItems (level + 1) rest ++
        breakLine level ++ "]"
  | .obj [] => "\x7b\x7d"
  | .obj ((key, value) :: rest) =>
      "\x7b" ++ breakLine (level + 1) ++ key.quoteAscii ++ ": " ++ dumpAt (level + 1) value ++
        dumpMembers (level + 1) rest ++ breakLine level ++ "\x7d"

def dumpItems (level : Nat) : List (Json Float) → String
  | [] => ""
  | item :: rest => "," ++ breakLine level ++ dumpAt level item ++ dumpItems level rest

def dumpMembers (level : Nat) : List (Text × Json Float) → String
  | [] => ""
  | (key, value) :: rest =>
      "," ++ breakLine level ++ key.quoteAscii ++ ": " ++ dumpAt level value ++
        dumpMembers level rest

end

def dump (value : Json Float) : String := dumpAt 0 value

mutual

def compact : Json Float → String
  | .null => "null"
  | .bool value => if value then "true" else "false"
  | .int value => toString value
  | .real value => Decimal.stored.write value
  | .str value => value.quoteAscii
  | .arr items => "[" ++ String.intercalate "," (compactItems items) ++ "]"
  | .obj entries => "\x7b" ++ String.intercalate "," (compactMembers entries) ++ "\x7d"

def compactItems : List (Json Float) → List String
  | [] => []
  | item :: rest => compact item :: compactItems rest

def compactMembers : List (Text × Json Float) → List String
  | [] => []
  | (key, value) :: rest => (key.quoteAscii ++ ":" ++ compact value) :: compactMembers rest

end

mutual

def inMessage : Json Float → String
  | .null => "None"
  | .bool value => if value then "True" else "False"
  | .int value => toString value
  | .real value => Decimal.plain.write value
  | .str value => value.quote
  | .arr items => "[" ++ String.intercalate ", " (inMessageItems items) ++ "]"
  | .obj entries => "\x7b" ++ String.intercalate ", " (inMessageMembers entries) ++ "\x7d"

def inMessageItems : List (Json Float) → List String
  | [] => []
  | item :: rest => item.inMessage :: inMessageItems rest

def inMessageMembers : List (Text × Json Float) → List String
  | [] => []
  | (key, value) :: rest => (key.quote ++ ": " ++ value.inMessage) :: inMessageMembers rest

end

end DockLayout.Json
