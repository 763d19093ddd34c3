/-
# LoxLexer.Lexer.Segments -- what a lexer makes of a whole text

`segments` cuts a text from end to end.  What a lexer finds in a text it has not
read is a function of these segments and the line alone: `tokensFrom` and
`reportsFrom` give the tokens and reports of segments that start on a line, and
`linesEnding` how many lines they end.

The main statements say that a lexer's loop does just this, whatever it has done
before: it adds the tokens (`tokens_drain`) and counts and passes on the reports
(`complaints_drain`, `sink_drain`) of the segments of the text left, and leaves the
line after them (`line_drain`) and no text (`rest_drain`).
-/
import LoxLexer.Lexer.Reading

namespace LoxLexer

set_option autoImplicit false

/-! ## Cutting a whole text -/

/-- The segments of a text, in order. -/
def segments : List Char → List Segment
  | [] => []
  | c :: rest => (Segment.cut c rest).1 :: segments (Segment.cut c rest).2
termination_by text => text.length
decreasing_by exact Segment.length_cut_lt c rest

@[simp] theorem segments_nil : segments [] = [] := by
  rw [segments]

@[simp] theorem segments_cons (c : Char) (rest : List Char) :
    segments (c :: rest) = (Segment.cut c rest).1 :: segments (Segment.cut c rest).2 := by
  rw [segments]

/-! ## What segments yield -/

namespace Segment

/-- The token of a segment that ends on a line, if it makes one. -/
def tokens (line : Nat) (segment : Segment) : List Token :=
  match segment.outcome with
  | .token kind literal => [⟨kind, String.ofList segment.text, literal, line⟩]
  | _ => []

/-- The report of a segment that ends on a line, if it makes one. -/
def reports (line : Nat) (segment : Segment) : List Report :=
  match segment.outcome with
  | .complaint message => [⟨line, message⟩]
  | _ => []

end Segment

/-- The tokens of segments, the first of which starts on a line. -/
@[simp] def tokensFrom (line : Nat) : List Segment → List Token
  | [] => []
  | segment :: rest =>
      segment.tokens (line + segment.lineEnds) ++ tokensFrom (line + segment.lineEnds) rest

/-- The reports of segments, the first of which starts on a line. -/
@[simp] def reportsFrom (line : Nat) : List Segment → List Report
  | [] => []
  | segment :: rest =>
      segment.reports (line + segment.lineEnds) ++ reportsFrom (line + segment.lineEnds) rest

/-- How many lines end within segments. -/
@[simp] def linesEnding : List Segment → Nat
  | [] => 0
  | segment :: rest => segment.lineEnds + linesEnding rest

/-- The segments of a text end as many lines as it has line ends. -/
@[simp] theorem linesEnding_segments (text : List Char) :
    linesEnding (segments text) = text.count '\n' := by
  fun_induction segments text with
  | case1 => rfl
  | case2 c rest ih =>
    rw [linesEnding, ih, ← Segment.cut_append c rest, List.count_append]
    rfl

/-! ## The loop -/

namespace Lexer

variable {Sink : Type} [ReportSink Sink]

@[simp] theorem line_settle (lexer : Lexer Sink) (segment : Segment) (rest : List Char) :
    (lexer.settle segment rest).line = lexer.line + segment.lineEnds := by
  cases made : segment.outcome <;> simp [settle, made, emit, complain]

@[simp] theorem tokens_settle (lexer : Lexer Sink) (segment : Segment) (rest : List Char) :
    (lexer.settle segment rest).tokens.toList =
      lexer.tokens.toList ++ segment.tokens (lexer.line + segment.lineEnds) := by
  cases made : segment.outcome <;>
    simp [settle, made, Segment.tokens, emit, complain]

@[simp] theorem complaints_settle (lexer : Lexer Sink) (segment : Segment) (rest : List Char) :
    (lexer.settle segment rest).complaints =
      lexer.complaints + (segment.reports (lexer.line + segment.lineEnds)).length := by
  cases made : segment.outcome <;>
    simp [settle, made, Segment.reports, emit, complain]

@[simp] theorem sink_settle (lexer : Lexer Sink) (segment : Segment) (rest : List Char) :
    (lexer.settle segment rest).sink =
      ReportSink.reportAll lexer.sink (segment.reports (lexer.line + segment.lineEnds)) := by
  cases made : segment.outcome <;>
    simp [settle, made, Segment.reports, emit, complain]

@[simp, grind =] theorem finished_settle (lexer : Lexer Sink) (segment : Segment) (rest : List Char) :
    (lexer.settle segment rest).finished = lexer.finished := by
  cases made : segment.outcome <;> simp [settle, made, emit, complain]

/-- The loop reads all the text. -/
@[simp] theorem rest_drain (lexer : Lexer Sink) : lexer.drain.rest = [] := by
  induction lexer using drain_induction with
  | nil lexer left => simp [left]
  | cons lexer c rest left ih => rw [drain_of_cons left, ih]

@[simp] theorem line_drain (lexer : Lexer Sink) :
    lexer.drain.line = lexer.line + linesEnding (segments lexer.rest) := by
  induction lexer using drain_induction with
  | nil lexer left => simp [left]
  | cons lexer c rest left ih =>
    simp [drain_of_cons left, ih, left, Nat.add_assoc]

@[simp] theorem tokens_drain (lexer : Lexer Sink) :
    lexer.drain.tokens.toList =
      lexer.tokens.toList ++ tokensFrom lexer.line (segments lexer.rest) := by
  induction lexer using drain_induction with
  | nil lexer left => simp [left]
  | cons lexer c rest left ih =>
    simp [drain_of_cons left, ih, left]

@[simp] theorem complaints_drain (lexer : Lexer Sink) :
    lexer.drain.complaints =
      lexer.complaints + (reportsFrom lexer.line (segments lexer.rest)).length := by
  induction lexer using drain_induction with
  | nil lexer left => simp [left]
  | cons lexer c rest left ih =>
    simp [drain_of_cons left, ih, left, Nat.add_assoc]

@[simp] theorem sink_drain (lexer : Lexer Sink) :
    lexer.drain.sink =
      ReportSink.reportAll lexer.sink (reportsFrom lexer.line (segments lexer.rest)) := by
  induction lexer using drain_induction with
  | nil lexer left => simp [left]
  | cons lexer c rest left ih =>
    simp [drain_of_cons left, ih, left]

/-- A lexer that was not finished holds, once it is, the tokens it had, those of
the text left, and the end of input on the last line. -/
@[simp] theorem tokens_run {lexer : Lexer Sink} (unfinished : lexer.finished = false) :
    lexer.run.tokens.toList =
      lexer.tokens.toList ++ tokensFrom lexer.line (segments lexer.rest) ++
        [.endOfInput ((lexer.line + lexer.rest.count '\n' : Nat) : Int)] := by
  simp [run, unfinished]

@[simp] theorem sink_run {lexer : Lexer Sink} (unfinished : lexer.finished = false) :
    lexer.run.sink =
      ReportSink.reportAll lexer.sink (reportsFrom lexer.line (segments lexer.rest)) := by
  simp [run, unfinished]

@[simp] theorem complaints_run {lexer : Lexer Sink} (unfinished : lexer.finished = false) :
    lexer.run.complaints =
      lexer.complaints + (reportsFrom lexer.line (segments lexer.rest)).length := by
  simp [run, unfinished]

@[simp] theorem line_run {lexer : Lexer Sink} (unfinished : lexer.finished = false) :
    lexer.run.line = lexer.line + lexer.rest.count '\n' := by
  simp [run, unfinished]

@[simp] theorem rest_run {lexer : Lexer Sink} (unfinished : lexer.finished = false) :
    lexer.run.rest = [] := by
  simp [run, unfinished]

@[simp] theorem run_of_finished {lexer : Lexer Sink} (finished : lexer.finished = true) :
    lexer.run = lexer := by
  simp [run, finished]

end Lexer

end LoxLexer
