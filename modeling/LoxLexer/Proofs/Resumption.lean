/-
# LoxLexer.Proofs.Resumption -- going on from anywhere is scanning the text left

A lexer that was driven in any way and is then told to run goes on as a fresh lexer
would on the text left, only further down by the lines it has counted: `run_after`.
Nothing else of what was done before matters, neither where the mark stood nor what
tokens and complaints there were.

A lexer that has run once does nothing more when told to run, so it gets its end of
input once.

Both rest on the functions of `Lexer/Segments`: the tokens and reports of a text
depend on its first line only by a shift (`map_down_tokensFrom`).
-/
import LoxLexer.Proofs.LongestMatch
import LoxLexer.Proofs.Reachable

namespace LoxLexer

set_option autoImplicit false

/-! ## Further down -/

/-- A token some lines further down. -/
def Token.down (lines : Int) (token : Token) : Token := { token with line := token.line + lines }

/-- A report some lines further down. -/
def Report.down (lines : Int) (report : Report) : Report :=
  { report with line := report.line + lines }

@[simp] theorem Token.down_endOfInput (lines line : Int) :
    (Token.endOfInput line).down lines = .endOfInput (line + lines) := rfl

theorem Segment.map_down_tokens {first second : Nat} {lines : Int} (apart : first + lines = second)
    (segment : Segment) :
    (segment.tokens first).map (Token.down lines) = segment.tokens second := by
  unfold Segment.tokens
  split
  · simp [Token.down, apart]
  · rfl

theorem Segment.map_down_reports {first second : Nat} {lines : Int} (apart : first + lines = second)
    (segment : Segment) :
    (segment.reports first).map (Report.down lines) = segment.reports second := by
  unfold Segment.reports
  split
  · simp [Report.down, apart]
  · rfl

/-- The tokens of segments that start further down. -/
theorem map_down_tokensFrom {first second : Nat} {lines : Int} (apart : first + lines = second)
    (pieces : List Segment) :
    (tokensFrom first pieces).map (Token.down lines) = tokensFrom second pieces := by
  induction pieces generalizing first second with
  | nil => rfl
  | cons segment rest ih =>
      have apart : ((first + segment.lineEnds : Nat) : Int) + lines =
          (second + segment.lineEnds : Nat) := by
        omega
      rw [tokensFrom, tokensFrom, List.map_append, Segment.map_down_tokens apart, ih apart]

/-- The reports of segments that start further down. -/
theorem map_down_reportsFrom {first second : Nat} {lines : Int} (apart : first + lines = second)
    (pieces : List Segment) :
    (reportsFrom first pieces).map (Report.down lines) = reportsFrom second pieces := by
  induction pieces generalizing first second with
  | nil => rfl
  | cons segment rest ih =>
      have apart : ((first + segment.lineEnds : Nat) : Int) + lines =
          (second + segment.lineEnds : Nat) := by
        omega
      rw [reportsFrom, reportsFrom, List.map_append, Segment.map_down_reports apart, ih apart]

/-- A text holds no end of input: that token is made by `run` alone. -/
theorem kind_ne_endOfInput_of_mem {line : Nat} {text : List Char} {token : Token}
    (member : token ∈ tokensFrom line (segments text)) : token.kind ≠ .endOfInput := by
  fun_induction segments text generalizing line with
  | case1 => simp at member
  | case2 c rest ih =>
      rw [tokensFrom, List.mem_append] at member
      rcases member with here | later
      · unfold Segment.tokens at here
        split at here
        · rename_i kind literal made
          rw [List.mem_singleton.mp here]
          exact kind_ne_endOfInput_of_longest (longest_cut c rest) made
        · simp at here
      · exact ih later

/-! ## Going on -/

namespace Lexer

variable {Sink : Type} [ReportSink Sink]

/-- The reports of a fresh lexer that records them. -/
theorem reports_run_ofText (text : List Char) :
    (ofText text Recorder.empty).run.sink.reports.toList = reportsFrom 1 (segments text) := by
  rw [sink_run rfl, Recorder.toList_reportAll]
  rfl

/-- What a fresh lexer has told its sink. -/
theorem sink_run_ofText (text : List Char) (sink : Sink) :
    (ofText text sink).run.sink = ReportSink.reportAll sink (reportsFrom 1 (segments text)) :=
  sink_run rfl

/-- The tokens of a fresh lexer. -/
theorem tokens_run_ofText (text : List Char) (sink : Sink) :
    (ofText text sink).run.tokens.toList =
      tokensFrom 1 (segments text) ++ [.endOfInput ((1 + text.count '\n' : Nat) : Int)] := by
  rw [tokens_run rfl]
  rfl

/-- **Resumption.**  Take a lexer after any steps, failed ones among them.  If it has
not run, then `run` succeeds and adds to the tokens those of a fresh scan of the text
left, its one end of input included, passes on and counts the reports of that scan,
all with the lines shifted by those counted before, and leaves the cursor at the end
of the text and the line after the text left.  If it has run, then `run` gives the
tokens it holds and changes nothing. -/
theorem run_after (sink : Sink) (text : List Char) (steps : List Step) :
    let lexer := (ofText text sink).after steps
    let suffix := text.drop lexer.position
    let fresh := (ofText suffix Recorder.empty).run
    let lines := (lexer.line : Int) - 1
    (Step.run ∉ steps →
      Step.run.perform lexer = (.ok (.tokens lexer.run.tokens.toList), lexer.run) ∧
      lexer.run.tokens.toList =
        lexer.tokens.toList ++ fresh.tokens.toList.map (Token.down lines) ∧
      (∃ found last, fresh.tokens.toList = found ++ [.endOfInput last] ∧
        ∀ token ∈ found, token.kind ≠ .endOfInput) ∧
      lexer.run.sink =
        ReportSink.reportAll lexer.sink (fresh.sink.reports.toList.map (Report.down lines)) ∧
      lexer.run.complaints = lexer.complaints + fresh.sink.reports.size ∧
      lexer.run.position = text.length ∧
      lexer.run.line = lexer.line + suffix.count '\n') ∧
    (Step.run ∈ steps →
      Step.run.perform lexer = (.ok (.tokens lexer.tokens.toList), lexer)) := by
  intro lexer suffix fresh lines
  have reads : Reads text lexer := (reads_ofText text sink).after steps
  have left : lexer.rest = suffix := reads.rest_eq_drop
  have finished : lexer.finished = true ↔ Step.run ∈ steps := by
    rw [finished_after_iff]
    simp [ofText]
  have apart : ((1 : Nat) : Int) + lines = lexer.line := by
    simp only [lines]
    omega
  refine ⟨fun unasked => ?_, fun asked => ?_⟩
  · have unfinished : lexer.finished = false := by
      rw [← Bool.not_eq_true, finished]
      exact unasked
    have reports : fresh.sink.reports.toList = reportsFrom 1 (segments suffix) :=
      reports_run_ofText suffix
    have tokens : fresh.tokens.toList = _ := tokens_run_ofText suffix Recorder.empty
    refine ⟨rfl, ?_, ⟨_, _, tokens, fun _ => kind_ne_endOfInput_of_mem⟩, ?_, ?_, ?_, ?_⟩
    · have last : ((1 + suffix.count '\n' : Nat) : Int) + lines =
          ((lexer.line + suffix.count '\n' : Nat) : Int) := by
        omega
      rw [tokens_run unfinished, left, tokens, List.map_append, map_down_tokensFrom apart,
        List.map_singleton, Token.down_endOfInput, last, List.append_assoc]
    · rw [sink_run unfinished, left, reports, map_down_reportsFrom apart]
    · rw [complaints_run unfinished, left, ← Array.length_toList, reports,
        ← map_down_reportsFrom apart, List.length_map]
    · have whole := reads.run.position_add_length
      rw [rest_run unfinished] at whole
      exact whole
    · rw [line_run unfinished, left]
  · have done : lexer.run = lexer := run_of_finished (finished.mpr asked)
    rw [Step.perform, done]

end Lexer

end LoxLexer
