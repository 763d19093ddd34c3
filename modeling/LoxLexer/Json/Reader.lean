/-
# LoxLexer.Json.Reader -- JSON texts back to values

A text is first cut into marks: brackets, strings and words, a word being a number or a
name.  What stands between them, white space, commas and colons, only keeps them apart, so
how a text is indented does not matter.  A string is read as UTF-16 units, since an escape
stands for one of those.

The marks are then put together.  The reader keeps the arrays and objects that are open,
innermost first; a value goes into the innermost one, and a closing bracket makes a value
of it.

The reader takes every text that the printer writes.  It is lenient with others: it asks
for no commas or colons.
-/
import LoxLexer.Json.Export
import LoxLexer.Numeral.Reading
import LoxLexer.Text.Utf16

namespace LoxLexer

set_option autoImplicit false

open Numeral (Binary64)

namespace Json

/-! ## Cutting a text into marks -/

inductive Mark where
  | openArray
  | closeArray
  | openObject
  | closeObject
  | string (text : String)
  | word (text : List Char)

/-- Where a reader stands in a text. -/
inductive Mode where
  | between
  /-- In a word, of which these characters were read, the last one first. -/
  | word (text : List Char)
  /-- In a string, of which these units were read, the last one first. -/
  | string (units : List Nat)
  /-- In a string, after a backslash. -/
  | escape (units : List Nat)
  /-- In a string, in an escape by number that lacks some of its digits. -/
  | number (units : List Nat) (missing value : Nat)

/-- The bracket that a character is. -/
def bracket? (c : Char) : Option Mark :=
  if c = '[' then some .openArray
  else if c = ']' then some .closeArray
  else if c = '\x7b' then some .openObject
  else if c = '\x7d' then some .closeObject
  else none

/-- Whether a character only keeps marks apart. -/
def isGap (c : Char) : Bool :=
  c = ' ' || c = '\n' || c = '\r' || c = '\t' || c = ',' || c = ':'

/-- Whether a word goes on with a character. -/
def continuesWord (c : Char) : Bool := !(c = '"' || (bracket? c).isSome || isGap c)

/-- The unit that a letter stands for after a backslash. -/
def letterUnit? (c : Char) : Option Nat :=
  if c = '"' || c = '\\' || c = '/' then some c.toNat
  else if c = 'n' then some 10
  else if c = 'r' then some 13
  else if c = 't' then some 9
  else if c = 'b' then some 8
  else if c = 'f' then some 12
  else none

/-- The value of a hexadecimal digit. -/
def hexValue? (c : Char) : Option Nat :=
  if c.isDigit then some (c.toNat - '0'.toNat)
  else if 'a' ≤ c ∧ c ≤ 'f' then some (c.toNat - 'a'.toNat + 10)
  else if 'A' ≤ c ∧ c ≤ 'F' then some (c.toNat - 'A'.toNat + 10)
  else none

/-- A character that belongs to no mark before it. -/
def start (done : List Mark) (c : Char) : Mode × List Mark :=
  if c = '"' then (.string [], done)
  else
    match bracket? c with
    | some mark => (.between, mark :: done)
    | none => if isGap c then (.between, done) else (.word [c], done)

/-- One character; `done` holds the marks before, the last one first. -/
def step (mode : Mode) (done : List Mark) (c : Char) : Option (Mode × List Mark) :=
  match mode with
  | .between => some (start done c)
  | .word text =>
      if continuesWord c then some (.word (c :: text), done)
      else some (start (.word text.reverse :: done) c)
  | .string units =>
      if c = '"' then
        (Text.Utf16.decode units.reverse).map fun text =>
          (.between, .string (String.ofList text) :: done)
      else if c = '\\' then some (.escape units, done)
      else some (.string (c.toNat :: units), done)
  | .escape units =>
      if c = 'u' then some (.number units 4 0, done)
      else (letterUnit? c).map fun unit => (.string (unit :: units), done)
  | .number units missing value =>
      (hexValue? c).map fun digit =>
        if missing ≤ 1 then (.string ((value * 16 + digit) :: units), done)
        else (.number units (missing - 1) (value * 16 + digit), done)

/-- The marks of a text, after those before it. -/
def marksFrom (mode : Mode) (done : List Mark) : List Char → Option (List Mark)
  | [] =>
      match mode with
      | .between => some done.reverse
      | .word text => some (.word text.reverse :: done).reverse
      | _ => none
  | c :: rest => (step mode done c).bind fun (mode, done) => marksFrom mode done rest

/-! ## Putting marks together -/

/-- The value that a word stands for. -/
def ofWord? (text : List Char) : Option Json :=
  if text = ['n', 'u', 'l', 'l'] then some .null
  else if text = ['t', 'r', 'u', 'e'] then some (.bool true)
  else if text = ['f', 'a', 'l', 's', 'e'] then some (.bool false)
  else
    match Binary64.exponent? text with
    | some value => some (.integer value)
    | none => (Binary64.read? text).map .double

/-- An array or object that is open, with what is in it, the last first. -/
inductive Frame where
  | array (items : List Json)
  | object (members : List (String × Json))
  /-- An object after the name of its next member. -/
  | member (members : List (String × Json)) (name : String)

/-- Puts a value into the innermost frame. -/
def give (value : Json) : List Frame → Option (List Frame)
  | .array items :: outer => some (.array (value :: items) :: outer)
  | .member members name :: outer => some (.object ((name, value) :: members) :: outer)
  | _ => none

/-- One mark, with the frames that are open, innermost first. -/
def place (frames : List Frame) (mark : Mark) : Option (List Frame) :=
  match mark with
  | .openArray => some (.array [] :: frames)
  | .openObject => some (.object [] :: frames)
  | .closeArray =>
      match frames with
      | .array items :: outer => give (.array items.reverse) outer
      | _ => none
  | .closeObject =>
      match frames with
      | .object members :: outer => give (.object members.reverse) outer
      | _ => none
  | .string text =>
      match frames with
      | .object members :: outer => some (.member members text :: outer)
      | _ => give (.string text) frames
  | .word text => (ofWord? text).bind fun value => give value frames

/-- The value that marks make up, which is all there is in an array around them. -/
def ofMarks? (marks : List Mark) : Option Json :=
  match marks.foldlM place [.array []] with
  | some [.array [value]] => some value
  | _ => none

/-- The value that a text is of. -/
def read? (text : String) : Option Json := (marksFrom .between [] text.toList).bind ofMarks?

/-! ## Parts of a value -/

/-- The member of an object with this name. -/
def member? (name : String) : Json → Option Json
  | .object members => members.lookup name
  | _ => none

def text? : Json → Option String
  | .string text => some text
  | _ => none

def whole? : Json → Option Int
  | .integer value => some value
  | _ => none

def truth? : Json → Option Bool
  | .bool value => some value
  | _ => none

def items? : Json → Option (List Json)
  | .array items => some items
  | _ => none

end Json

/-! ## Tokens, diagnostics and scans -/

def Literal.ofJson? : Json → Option Literal
  | .null => some .none
  | .string text => some (.string text)
  | .double value => some (.number value)
  | _ => Option.none

def Token.ofJson? (json : Json) : Option Token := do
  let lexeme ← (json.member? "lexeme").bind Json.text?
  let line ← (json.member? "line").bind Json.whole?
  let literal ← (json.member? "literal").bind Literal.ofJson?
  let kind ← ((json.member? "type").bind Json.text?).bind Kind.ofName?
  return ⟨kind, lexeme, literal, line⟩

/-- A diagnostic without a `line` member belongs to no line. -/
def Diagnostic.ofJson? (json : Json) : Option Diagnostic := do
  let code ← (json.member? "code").bind Json.text?
  let hint ← (json.member? "hint").bind Json.text?
  let message ← (json.member? "message").bind Json.text?
  match json.member? "line" with
  | none => return ⟨code, message, none, hint⟩
  | some line => return ⟨code, message, some (← line.whole?), hint⟩

/-- A scan, and whether its value says that nothing was complained about. -/
def Scan.ofJson? (json : Json) : Option (Scan × Bool) := do
  let diagnostics ← (json.member? "diagnostics").bind Json.items?
  let filename ← (json.member? "file").bind Json.text?
  let ok ← (json.member? "ok").bind Json.truth?
  let tokens ← (json.member? "tokens").bind Json.items?
  return (⟨filename, ← tokens.mapM Token.ofJson?, ← diagnostics.mapM Diagnostic.ofJson?⟩, ok)

/-- The scan that a JSON text is of, with its `ok`. -/
def Scan.read? (text : String) : Option (Scan × Bool) := (Json.read? text).bind ofJson?

end LoxLexer
