/-
# LoxLexer.Lexer.Step -- driving a lexer move by move

A `Step` is one thing that can be asked of a lexer; `Step.perform` does it and
answers.  Two steps need a character and fail at the end of the text.  A failed
step changes nothing, except that reading a segment has then put the mark at the
cursor already.
-/
import LoxLexer.Lexer.Reading

namespace LoxLexer.Lexer

set_option autoImplicit false

/-- What can be asked of a lexer. -/
inductive Step where
  /-- Read to the end of the text. -/
  | run
  /-- Read one segment. -/
  | segment
  /-- Move over one character. -/
  | shift
  | lookahead
  | secondLookahead
  | isExhausted
  /-- Move over the next character if it is the expected one. -/
  | shiftIf (expected : String)
  | mark
  /-- Make a token of the pending text. -/
  | emit (kind : Kind) (literal : Literal)
  | complain (report : Report)
  /-- Make the sink forget its reports; the lexer's own count stays. -/
  | forget

/-- What a step answers. -/
inductive Answer where
  | nothing
  | character (c : Char)
  | flag (value : Bool)
  | tokens (tokens : List Token)

/-- Why a step fails. -/
inductive Fault where
  /-- There is no character left to read. -/
  | pastEnd
  deriving DecidableEq

def Fault.message : Fault → String
  | .pastEnd => "string index out of range"

variable {Sink : Type} [ReportSink Sink]

/-- Does one step: its answer or failure, and the lexer after it. -/
def Step.perform (lexer : Lexer Sink) : Step → Except Fault Answer × Lexer Sink
  | .run => (.ok (.tokens lexer.run.tokens.toList), lexer.run)
  | .segment =>
      match lexer.segment? with
      | some after => (.ok .nothing, after)
      | none => (.error .pastEnd, lexer.mark)
  | .shift =>
      match lexer.shift? with
      | some (c, after) => (.ok (.character c), after)
      | none => (.error .pastEnd, lexer)
  | .lookahead => (.ok (.character lexer.lookahead), lexer)
  | .secondLookahead => (.ok (.character lexer.secondLookahead), lexer)
  | .isExhausted => (.ok (.flag lexer.isExhausted), lexer)
  | .shiftIf expected => (.ok (.flag (lexer.shiftIf expected).1), (lexer.shiftIf expected).2)
  | .mark => (.ok .nothing, lexer.mark)
  | .emit kind literal => (.ok .nothing, lexer.emit kind literal)
  | .complain report => (.ok .nothing, lexer.complain report)
  | .forget => (.ok .nothing, { lexer with sink := ReportSink.forget lexer.sink })

/-- The lexer after a series of steps, the failed ones among them included. -/
def after (lexer : Lexer Sink) (steps : List Step) : Lexer Sink :=
  steps.foldl (fun lexer step => (step.perform lexer).2) lexer

end LoxLexer.Lexer
