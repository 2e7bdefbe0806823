import DockLayout.Json.Writer
import DockLayout.Panel.Config

/-!
# Messages

The wording of every error. Values from layout data are quoted as messages
quote them, and kinds of value go by their short names.
-/

set_option autoImplicit false

namespace DockLayout

namespace Json

def Kind.name : Kind → String
  | .null => "NoneType"
  | .bool => "bool"
  | .int => "int"
  | .real => "float"
  | .str => "str"
  | .arr => "list"
  | .obj => "dict"

def Kind.quoted (kind : Kind) : String := "'" ++ kind.name ++ "'"

def Offence.message : Offence → String
  | .value => "Expecting value"
  | .propertyName => "Expecting property name enclosed in double quotes"
  | .colon => "Expecting ':' delimiter"
  | .comma => "Expecting ',' delimiter"
  | .extraData => "Extra data"
  | .openString => "Unterminated string starting at"
  | .controlCharacter => "Invalid control character at"
  | .escape => "Invalid \\escape"
  | .unicodeEscape => "Invalid \\uXXXX escape"
  | .byteOrderMark => "Unexpected UTF-8 BOM (decode using utf-8-sig)"

def ReadError.message (error : ReadError) : String :=
  error.offence.message ++ ": line " ++ toString error.line ++ " column " ++
    toString error.column ++ " (char " ++ toString error.position ++ ")"

end Json

/-- A quoted text that is no integer is shown up to this many characters. -/
def integerTextLimit : Nat := 200

def FieldError.message : FieldError → String
  | .missing key => key.quote
  | .noMembers kind => kind.quoted ++ " object is not subscriptable"
  | .keyOfList => "list indices must be integers or slices, not str"
  | .keyOfText => "string indices must be integers, not 'str'"
  | .noElements kind => kind.quoted ++ " object is not iterable"
  | .noReal kind => "float() argument must be a string or a real number, not " ++ kind.quoted
  | .noInteger kind =>
      "int() argument must be a string, a bytes-like object or a real number, not " ++ kind.quoted
  | .realText text => "could not convert string to float: " ++ text.quote
  | .integerText text =>
      "invalid literal for int() with base 10: " ++
        String.ofList (text.quote.toList.take integerTextLimit)
  | .integerOfNotANumber => "cannot convert float NaN to integer"
  | .integerOfInfinity => "cannot convert float infinity to integer"
  | .integerTooLarge => "int too large to convert to float"

namespace LayoutError

private def number (x : Float) : String := Decimal.plain.write x

private def numbers (xs : List Float) : String :=
  "[" ++ String.intercalate ", " (xs.map number) ++ "]"

def message : LayoutError Float → String
  | .headerHeight value => "Invalid header_height: " ++ number value ++ ". Must be >= 0"
  | .dropEdgeFraction value =>
      "Invalid drop_edge_fraction: " ++ number value ++ ". Must be between 0.0 and 0.5"
  | .defaultSplitRatio value =>
      "Invalid default_split_ratio: " ++ number value ++ ". Must be between " ++
        number (minRatio Float) ++ " and " ++ number (maxRatio Float)
  | .dropZone value => value.inMessage ++ " is not a valid DropZone"
  | .noChildren => "Split needs at least one child"
  | .ratioCount children ratios =>
      "Split has " ++ toString children ++ " children but " ++ toString ratios ++ " ratios"
  | .lastRatio value => "Last split ratio must be 1.0, got " ++ number value
  | .decreasingRatios ratios => "Split ratios must be non-decreasing: " ++ numbers ratios
  | .childIndex index split children =>
      "Child index " ++ toString index ++ " out of range for split " ++ toString split.value ++
        " with " ++ toString children ++ " children"
  | .boundaryIndex index split boundaries =>
      "Boundary index " ++ toString index ++ " out of range for split " ++
        toString split.value ++ " with " ++ toString boundaries ++ " movable boundaries"
  | .onlyChild split => "Cannot remove the only child of split " ++ toString split.value
  | .noReplacement => "replace_child_with_children needs at least one child"
  | .noActiveDock => "list index out of range"
  | .rootExists => "Workspace already has a root area"
  | .field error => error.message
  | .splitField error => "Invalid split data: " ++ error.message
  | .containerField error => "Invalid container data: " ++ error.message
  | .splitHandle value => "Invalid split handle: " ++ value.inMessage
  | .dockHandle value => "Invalid dock handle: " ++ value.inMessage
  | .direction value => "Invalid direction: " ++ value.inMessage
  | .dockData value => "Invalid dock data: " ++ value.inMessage
  | .areaData value => "Invalid area data: " ++ value.inMessage
  | .areaType value => "Unknown area type: " ++ value.inMessage
  | .noDocks => "Container data has no docks"
  | .activeIndex index => "Invalid active dock index: " ++ toString index
  | .workspaceData value => "Invalid workspace data: " ++ value.inMessage
  | .version value => "Unsupported layout version: " ++ value.inMessage
  | .text error => "Invalid layout JSON: " ++ error.message
  | .missingFile name => "No such layout: " ++ name.quote

end LayoutError

end DockLayout
