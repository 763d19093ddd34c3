/-
# LoxLexer.Json.Printer -- JSON values as text

The text holds printable ASCII and line ends only: a string escapes quotes,
backslashes and every other character outside the range from space to tilde, a
character above U+FFFF as the two halves of its UTF-16 form.

Without an indent a value is one line.  With an indent every item and member
stands on a line of its own, behind that many spaces for each level it is in; an
indent of zero or less breaks the lines and adds no spaces.  Empty arrays and
objects never break.

Every value has a text with every indent.  Elsewhere such text may be refused: an
integer with more digits than a reader or writer takes, or an indent larger than any
text.  Such limits are set by what runs the program and are no part of the format, so
there are none here, and what is proved of `print` is about every integer and every
indent.
-/
import LoxLexer.Json.Value
import LoxLexer.Numeral.Layout
import LoxLexer.Text.Hex

namespace LoxLexer.Json

set_option autoImplicit false

open Numeral (Layout)

/-! ## Leaves -/

/-- Doubles in JSON text: those without digits go by their long names. -/
def doubles : Layout := ⟨-4, 16, "Infinity", "NaN"⟩

/-- The escape of one UTF-16 unit by its number. -/
def unitEscape (unit : Nat) : List Char := '\\' :: 'u' :: Text.hex 4 unit

/-- The escape of a character by its number: one unit, or two from U+10000 up. -/
def numericEscape (c : Char) : List Char :=
  if c.toNat < 0x10000 then unitEscape c.toNat
  else
    unitEscape (0xD800 + (c.toNat - 0x10000) / 0x400) ++
      unitEscape (0xDC00 + (c.toNat - 0x10000) % 0x400)

/-- A character inside a string. -/
def escape (c : Char) : List Char :=
  if c = '"' then ['\\', '"']
  else if c = '\\' then ['\\', '\\']
  else if c = '\n' then ['\\', 'n']
  else if c = '\r' then ['\\', 'r']
  else if c = '\t' then ['\\', 't']
  else if c = '\x08' then ['\\', 'b']
  else if c = '\x0c' then ['\\', 'f']
  else if ' ' ≤ c ∧ c ≤ '~' then [c]
  else numericEscape c

/-- A string with its quotes. -/
def printString (text : String) : List Char := '"' :: text.toList.flatMap escape ++ ['"']

def printInteger : Int → List Char
  | .ofNat value => Nat.toDigits 10 value
  | .negSucc value => '-' :: Nat.toDigits 10 (value + 1)

/-! ## Lines -/

/-- What stands between a bracket and the item next to it, on the given level. -/
def lineBreak (indent : Option Int) (level : Nat) : List Char :=
  match indent with
  | none => []
  | some width => '\n' :: List.replicate (width.toNat * level) ' '

/-- What stands between two items of the given level. -/
def separator (indent : Option Int) (level : Nat) : List Char :=
  match indent with
  | none => [',', ' ']
  | some _ => ',' :: lineBreak indent level

/-- Items of the given level between brackets. -/
def bracketed (indent : Option Int) (level : Nat) (opening closing : Char) :
    List (List Char) → List Char
  | [] => [opening, closing]
  | items =>
      opening :: lineBreak indent (level + 1) ++
        (separator indent (level + 1)).intercalate items ++
        lineBreak indent level ++ [closing]

/-! ## Values -/

mutual

/-- The text of a value that stands in `level` arrays and objects. -/
def printAt (indent : Option Int) (level : Nat) : Json → List Char
  | .null => ['n', 'u', 'l', 'l']
  | .bool true => ['t', 'r', 'u', 'e']
  | .bool false => ['f', 'a', 'l', 's', 'e']
  | .integer value => printInteger value
  | .double value => doubles.write value
  | .string text => printString text
  | .array items => bracketed indent level '[' ']' (printItems indent (level + 1) items)
  | .object members =>
      bracketed indent level '\x7b' '\x7d' (printMembers indent (level + 1) members)

/-- The texts of the items of an array. -/
def printItems (indent : Option Int) (level : Nat) : List Json → List (List Char)
  | [] => []
  | item :: items => printAt indent level item :: printItems indent level items

/-- The texts of the members of an object, each a name, a colon and a value. -/
def printMembers (indent : Option Int) (level : Nat) :
    List (String × Json) → List (List Char)
  | [] => []
  | (name, value) :: members =>
      (printString name ++ ':' :: ' ' :: printAt indent level value) ::
        printMembers indent level members

end

/-- The text of a value. -/
def print (value : Json) (indent : Option Int) : String :=
  String.ofList (printAt indent 0 value)

end LoxLexer.Json
