/-
Module: Quill.Text
Layer: Values
Purpose: Small conventions on text: which characters count as white space at the ends of a line, and how
  a name is shown between quotes when a scope is described.
Main exports: Text.isSpace, Text.trim, Text.lines, Text.quoted
-/
import Quill.Text.Hidden

namespace Quill.Text

/-- The characters with the property of being white space, as closed ranges of code points. -/
def spaceRanges : List (Nat × Nat) :=
  [(0x09, 0x0D), (0x20, 0x20), (0x85, 0x85), (0xA0, 0xA0), (0x1680, 0x1680), (0x2000, 0x200A),
    (0x2028, 0x2029), (0x202F, 0x202F), (0x205F, 0x205F), (0x3000, 0x3000)]

/-- Whether a character is white space. -/
def isSpace (c : Char) : Bool :=
  inRanges spaceRanges c.toNat

/-- A text without the white space at its two ends. -/
def trim (text : String) : String :=
  String.ofList ((text.toList.dropWhile isSpace).reverse.dropWhile isSpace).reverse

/-- The lines of a text. A line feed ends a line, so that nothing stands behind the last one. -/
def lines : List Char → List (List Char)
  | [] => []
  | c :: cs =>
    if c = '\n' then
      [] :: lines cs
    else
      match lines cs with
      | [] => [[c]]
      | first :: rest => (c :: first) :: rest

/-- How a character is shown between quotes: quotes, backslashes and the common controls by a letter,
    other hidden characters by their code point, and all else as it is. -/
def quotedChar (c : Char) : List Char :=
  if c = '"' then ['\\', '"']
  else if c = '\\' then ['\\', '\\']
  else if c = '\n' then ['\\', 'n']
  else if c = '\r' then ['\\', 'r']
  else if c = '\t' then ['\\', 't']
  else if c.toNat = 0 then ['\\', '0']
  else if isHidden c then
    ['\\', 'u', '\x7b'] ++ Nat.toDigits 16 c.toNat ++ ['\x7d']
  else [c]

/-- A text between quotes, with what could not be read otherwise escaped. -/
def quoted (text : String) : String :=
  "\"" ++ String.ofList (text.toList.flatMap quotedChar) ++ "\""

end Quill.Text
