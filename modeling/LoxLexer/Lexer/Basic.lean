/-
# LoxLexer.Lexer.Basic -- a lexer at work on a text

A `Lexer` holds the text it has not read (`rest`), the text it has read since the
last mark (`pending`), how much it had read at that mark (`offset`), the current
line, and what it has found: tokens, the number of its complaints, and the sink
that took them.  A token is made of the pending text, so its lexeme is always the
source between the mark and the cursor.

A lexer works by single moves and looks at most two characters ahead.  Past the
end of the text it sees U+0000; a text may hold that character too, so the loops
below ask for a character to move over and not for what they see.  `segment?`
reads one segment.
-/
import LoxLexer.Lexer.Segment

namespace LoxLexer

set_option autoImplicit false

open Numeral (Binary64)

/-- The state of a lexer, with the sink that takes its reports. -/
structure Lexer (Sink : Type) where
  /-- How many characters stand before the mark. -/
  offset : Nat
  /-- The characters between the mark and the cursor. -/
  pending : List Char
  /-- The characters after the cursor. -/
  rest : List Char
  /-- The line of the cursor, counted from one. -/
  line : Nat
  /-- How many reports were made. -/
  complaints : Nat
  tokens : Array Token
  /-- Whether the end-of-input token was added. -/
  finished : Bool
  sink : Sink

namespace Lexer

variable {Sink : Type}

/-- A lexer before the first character of a text. -/
def ofText (text : List Char) (sink : Sink) : Lexer Sink :=
  ⟨0, [], text, 1, 0, #[], false, sink⟩

/-- How many characters stand before the cursor. -/
def position (lexer : Lexer Sink) : Nat := lexer.offset + lexer.pending.length

/-! ## Single moves -/

/-- Puts the mark at the cursor. -/
def mark (lexer : Lexer Sink) : Lexer Sink :=
  { lexer with offset := lexer.position, pending := [] }

/-- Whether the cursor is at the end of the text. -/
def isExhausted (lexer : Lexer Sink) : Bool := lexer.rest.isEmpty

/-- The character after the cursor; past the end of the text, U+0000. -/
def lookahead (lexer : Lexer Sink) : Char := lexer.rest.head?.getD '\x00'

/-- The character after that one; past the end of the text, U+0000. -/
def secondLookahead (lexer : Lexer Sink) : Char := lexer.rest.tail.head?.getD '\x00'

/-- Moves the cursor over one character, if there is one. -/
def shift? (lexer : Lexer Sink) : Option (Char × Lexer Sink) :=
  match lexer.rest with
  | [] => none
  | c :: rest => some (c, { lexer with pending := lexer.pending ++ [c], rest })

/-- Moves the cursor over the next character if that character alone is the
`expected` text, and says whether it did. -/
def shiftIf (lexer : Lexer Sink) (expected : String) : Bool × Lexer Sink :=
  match lexer.shift? with
  | none => (false, lexer)
  | some (c, after) => if expected.toList = [c] then (true, after) else (false, lexer)

/-- Goes on to the next line. -/
def endLine (lexer : Lexer Sink) : Lexer Sink := { lexer with line := lexer.line + 1 }

/-- Adds a token made of the pending text. -/
def emit (lexer : Lexer Sink) (kind : Kind) (literal : Literal) : Lexer Sink :=
  { lexer with
    tokens := lexer.tokens.push ⟨kind, String.ofList lexer.pending, literal, lexer.line⟩ }

/-- Counts a report and hands it to the sink. -/
def complain [ReportSink Sink] (lexer : Lexer Sink) (report : Report) : Lexer Sink :=
  { lexer with
    complaints := lexer.complaints + 1
    sink := ReportSink.report lexer.sink report }

/-! ## Loops -/

theorem length_shift?_lt {lexer moved : Lexer Sink} {c : Char}
    (found : lexer.shift? = some (c, moved)) : moved.rest.length < lexer.rest.length := by
  unfold shift? at found
  split at found
  · simp at found
  · rename_i first rest left
    cases found
    rw [left]
    exact Nat.lt_succ_self rest.length

/-- Moves the cursor as long as the next character passes a test. -/
def shiftWhile (keep : Char → Bool) (lexer : Lexer Sink) : Lexer Sink :=
  if keep lexer.lookahead then
    match _found : lexer.shift? with
    | some (_, moved) => shiftWhile keep moved
    | none => lexer
  else lexer
termination_by lexer.rest.length
decreasing_by exact length_shift?_lt _found

/-- Moves the cursor to the next quote, or to the end if there is none, and counts
the lines that end on the way. -/
def shiftToQuote (lexer : Lexer Sink) : Lexer Sink :=
  if lexer.lookahead ≠ '"' then
    match _found : lexer.shift? with
    | some (c, moved) => shiftToQuote (if c = '\n' then moved.endLine else moved)
    | none => lexer
  else lexer
termination_by lexer.rest.length
decreasing_by
  have shorter := length_shift?_lt _found
  split <;> exact shorter

/-! ## Reading a segment -/

/-- Reads on after an operator: a directly following `=` belongs to it. -/
def readOperator (bare withEqual : Kind) (lexer : Lexer Sink) : Lexer Sink :=
  let (followed, moved) := lexer.shiftIf "="
  moved.emit (if followed then withEqual else bare) .none

/-- Reads on after a slash: a second one starts a comment. -/
def readSlash (lexer : Lexer Sink) : Lexer Sink :=
  let (followed, moved) := lexer.shiftIf "/"
  if followed then moved.shiftWhile (· ≠ '\n') else moved.emit .slash .none

/-- Reads on after a quote.  A string's value is what stands between its quotes. -/
def readQuoted [ReportSink Sink] (lexer : Lexer Sink) : Lexer Sink :=
  let inside := lexer.shiftToQuote
  match inside.shift? with
  | none => inside.complain ⟨inside.line, Report.unterminatedString⟩
  | some (_, closed) =>
      closed.emit .string (.string (String.ofList closed.pending.tail.dropLast))

/-- Moves over a point and the digits after it, if there is a digit. -/
def shiftFraction (lexer : Lexer Sink) : Lexer Sink :=
  if lexer.lookahead = '.' && lexer.secondLookahead.isDigit then
    match lexer.shift? with
    | some (_, moved) => moved.shiftWhile Char.isDigit
    | none => lexer
  else lexer

/-- Reads on after a digit. -/
def readNumber (lexer : Lexer Sink) : Lexer Sink :=
  let read := (lexer.shiftWhile Char.isDigit).shiftFraction
  read.emit .number (.number (Binary64.ofNumeral read.pending))

/-- Reads on after the first character of a word. -/
def readWord (lexer : Lexer Sink) : Lexer Sink :=
  let read := lexer.shiftWhile isWordPart
  read.emit (Kind.ofWord (String.ofList read.pending)) .none

/-- Reads on after the first character of a segment. -/
def readAfter [ReportSink Sink] (c : Char) (lexer : Lexer Sink) : Lexer Sink :=
  match markKind? c with
  | some kind => lexer.emit kind .none
  | none =>
      match operatorKinds? c with
      | some (bare, withEqual) => lexer.readOperator bare withEqual
      | none =>
          if c = '/' then lexer.readSlash
          else if isBlank c then lexer
          else if c = '\n' then lexer.endLine
          else if c = '"' then lexer.readQuoted
          else if c.isDigit then lexer.readNumber
          else if isWordStart c then lexer.readWord
          else lexer.complain ⟨lexer.line, Report.unexpectedCharacter⟩

/-- Puts the mark at the cursor and reads one segment, if there is text left. -/
def segment? [ReportSink Sink] (lexer : Lexer Sink) : Option (Lexer Sink) :=
  lexer.mark.shift?.map fun (c, moved) => moved.readAfter c

end Lexer

end LoxLexer
