import DockLayout.Text.Charset

/-!
# Quoted text

Two written forms of a text. `quote` is the form inside messages: single
quotes unless only the single one occurs in the text, and every code point
without a glyph escaped. `quoteAscii` is the form inside layout files: double
quotes and nothing outside printable ASCII.
-/

set_option autoImplicit false

namespace DockLayout.Text

def hexDigits : Nat → Nat → List Char
  | 0, _ => []
  | width + 1, value => hexDigits width (value / 16) ++ [Nat.digitChar (value % 16)]

/-- The shortest of the escapes `\xNN`, `\uNNNN` and `\UNNNNNNNN` that holds the
code point. -/
def escapePoint (point : Nat) : List Char :=
  if point < 0x100 then '\\' :: 'x' :: hexDigits 2 point
  else if point < 0x10000 then '\\' :: 'u' :: hexDigits 4 point
  else '\\' :: 'U' :: hexDigits 8 point

def quotePoint (mark : Char) (point : Nat) : List Char :=
  if point = mark.toNat then ['\\', mark]
  else if point = 0x5C then ['\\', '\\']
  else if point = 0x0A then ['\\', 'n']
  else if point = 0x0D then ['\\', 'r']
  else if point = 0x09 then ['\\', 't']
  else if Charset.isPrintable point then [Char.ofNat point]
  else escapePoint point

def quoteMark (text : Text) : Char :=
  if text.points.contains 0x27 && !text.points.contains 0x22 then '"' else Char.ofNat 0x27

def quote (text : Text) : String :=
  let mark := text.quoteMark
  String.ofList (mark :: (text.points.flatMap (quotePoint mark) ++ [mark]))

/-- The units of a code point in an escape of four digits: two above the first
plane. -/
def units (point : Nat) : List Nat :=
  if point < 0x10000 then [point]
  else [0xD800 + (point - 0x10000) / 0x400, 0xDC00 + (point - 0x10000) % 0x400]

def quoteAsciiPoint (point : Nat) : List Char :=
  if point = 0x22 then ['\\', '"']
  else if point = 0x5C then ['\\', '\\']
  else if point = 0x0A then ['\\', 'n']
  else if point = 0x0D then ['\\', 'r']
  else if point = 0x09 then ['\\', 't']
  else if point = 0x08 then ['\\', 'b']
  else if point = 0x0C then ['\\', 'f']
  else if 32 ≤ point && point ≤ 126 then [Char.ofNat point]
  else (units point).flatMap fun unit => '\\' :: 'u' :: hexDigits 4 unit

def quoteAscii (text : Text) : String :=
  String.ofList ('"' :: (text.points.flatMap quoteAsciiPoint ++ ['"']))

end DockLayout.Text
