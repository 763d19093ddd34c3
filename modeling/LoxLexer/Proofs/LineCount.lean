/-
# LoxLexer.Proofs.LineCount -- which line a token or report carries

A token carries the line on which it ends, so a string that runs over several lines
carries the last of them.  A stray character is reported on the line it stands on,
and an unclosed string on the last line of the text.  Lines are counted by U+000A
alone: a carriage return ends none, and a line end counts once wherever it stands,
between tokens, after a comment or within a string.

The lexer counts lines in two places as it goes, so this is a law about the whole
run: `run_lines` gives every line as a count over the text.  In source order the
lines never decrease.
-/
import LoxLexer.Proofs.LongestMatch

namespace LoxLexer

set_option autoImplicit false

/-! ## The rule -/

/-- The line that the find of a piece carries, in a text in which the piece comes
after `before`. -/
def Piece.lineIn (text before : List Char) (piece : Piece) : Nat :=
  match piece.outcome with
  | .complaint message =>
      if message = Report.unterminatedString then 1 + text.count '\n' else 1 + before.count '\n'
  | _ => 1 + (before ++ piece.text).count '\n'

/-- What the pieces after `before` yield, in order, each on the line of the rule. -/
def findsIn (text before : List Char) : List Piece → List Find
  | [] => []
  | piece :: rest =>
      (piece.find? (piece.lineIn text before)).toList ++ findsIn text (before ++ piece.text) rest

/-! ## The rule and the count of a lexer -/

/-- A token and a stray character end where the rule counts to; an unclosed string
ends the text. -/
theorem lineIn_eq_lineAfter {piece : Piece} {after : List Char} (longest : Longest piece after)
    (before : List Char) :
    piece.lineIn (before ++ (piece.text ++ after)) before = lineAfter (before ++ piece.text) := by
  cases longest with
  | unterminated _ => simp [Piece.lineIn, lineAfter]
  | @stray c _ foreign unlisted =>
      have sameLine : c ≠ '\n' := ne_of_not_mem_signs unlisted (by decide)
      have stray : Report.unexpectedCharacter ≠ Report.unterminatedString := by decide
      simp [Piece.lineIn, lineAfter, stray, sameLine]
  | _ => rfl

theorem findsIn_eq_finds {text : List Char} {pieces : List Piece} (cutting : Cutting text pieces)
    (before : List Char) : findsIn (before ++ text) before pieces = finds before pieces := by
  induction cutting generalizing before with
  | nil => rfl
  | @cons piece after pieces longest _ ih =>
      rw [findsIn, finds, lineIn_eq_lineAfter longest, ← List.append_assoc, ih]

/-! ## Order -/

theorem line_of_find? {piece : Piece} {line : Nat} {found : Find}
    (made : piece.find? line = some found) : found.line = line := by
  unfold Piece.find? at made
  split at made
  · cases made
    rfl
  · cases made
    rfl
  · cases made

/-- Every find stands on a line between the one before the pieces and the one after
them. -/
theorem line_mem_finds {before : List Char} {pieces : List Piece} {found : Find}
    (member : found ∈ finds before pieces) :
    (lineAfter before : Int) ≤ found.line ∧
      found.line ≤ lineAfter (before ++ pieces.flatMap Piece.text) := by
  induction pieces generalizing before with
  | nil => simp [finds] at member
  | cons piece rest ih =>
      rw [finds, List.mem_append, Option.mem_toList] at member
      rw [List.flatMap_cons, ← List.append_assoc]
      have start := lineAfter_append before piece.text
      have finish := lineAfter_append (before ++ piece.text) (rest.flatMap Piece.text)
      rcases member with made | later
      · have line := line_of_find? made
        omega
      · obtain ⟨lower, upper⟩ := ih later
        omega

theorem pairwise_line_finds (before : List Char) (pieces : List Piece) :
    ((finds before pieces).map Find.line ++
      [(lineAfter (before ++ pieces.flatMap Piece.text) : Int)]).Pairwise (· ≤ ·) := by
  rw [List.pairwise_append]
  refine ⟨?_, List.pairwise_singleton _ _, ?_⟩
  · induction pieces generalizing before with
    | nil => exact .nil
    | cons piece rest ih =>
        rw [finds, List.map_append, List.pairwise_append]
        refine ⟨?_, ih _, ?_⟩
        · cases piece.find? (lineAfter (before ++ piece.text)) <;> simp
        · intro first here second later
          rw [List.mem_map] at here later
          obtain ⟨found, made, rfl⟩ := here
          obtain ⟨other, member, rfl⟩ := later
          rw [line_of_find? (Option.mem_toList.mp made)]
          exact (line_mem_finds member).1
  · intro line here last final
    rw [List.mem_map] at here
    obtain ⟨found, member, rfl⟩ := here
    rw [List.mem_singleton.mp final]
    exact (line_mem_finds member).2

variable {Sink : Type} [ReportSink Sink]

/-- **The line law.**  The tokens and reports of a fresh lexer carry the lines of the
rule, the end of input that of the text's end, and in source order no line is lower
than one before it. -/
theorem run_lines (sink : Sink) (text : List Char) :
    ∃ pieces, Cutting text pieces ∧
      (Lexer.ofText text sink).run.tokens.toList =
        (findsIn text [] pieces).filterMap Find.token? ++
          [.endOfInput ((1 + text.count '\n' : Nat) : Int)] ∧
      (Lexer.ofText text sink).run.sink =
        ReportSink.reportAll sink ((findsIn text [] pieces).filterMap Find.report?) ∧
      ((findsIn text [] pieces).map Find.line ++
        [((1 + text.count '\n' : Nat) : Int)]).Pairwise (· ≤ ·) := by
  have cutting := cutting_segments text
  have same := findsIn_eq_finds cutting []
  rw [List.nil_append] at same
  refine ⟨_, cutting, ?_, ?_, ?_⟩
  · rw [same, tokens_run_of_cutting cutting sink]
    rfl
  · rw [same, sink_run_of_cutting cutting sink]
  · have sorted := pairwise_line_finds [] ((segments text).map Segment.piece)
    rw [flatMap_text_of_cutting cutting, List.nil_append] at sorted
    rw [same]
    exact sorted

end LoxLexer
