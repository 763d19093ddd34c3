/-
# LoxLexer.Proofs.Trivia -- white space and comments between pieces

`Trivia` is text that yields nothing and leaves nothing open: white space, line ends, and
comments that are ended.  The main statement, `run_insert_trivia`, is that trivia that
starts with white space can be put between any two pieces of a text.  The tokens and
reports stay the same, and those behind the place only move down by the line ends put in.

White space ends every piece but a comment just where it ended before
(`Longest.before_space`).  A comment goes on over the trivia behind it, up to a line end;
what is left of the trivia is trivia again (`Trivia.exists_line`), so a comment in front of the
place is no obstacle, only a case of its own (`Cutting.insert_behind_comment`).
-/
import LoxLexer.Proofs.Joining

namespace LoxLexer

set_option autoImplicit false

/-! ## Trivia -/

/-- White space, line ends, and comments, each with the line end behind it. -/
inductive Trivia : List Char → Prop
  | nil : Trivia []
  | space {c : Char} {rest : List Char} :
      c ∈ [' ', '\r', '\t', '\n'] → Trivia rest → Trivia (c :: rest)
  | comment {body rest : List Char} :
      '\n' ∉ body → Trivia rest → Trivia ('/' :: '/' :: body ++ '\n' :: rest)

/-- What is left of trivia from its first line end on is trivia. -/
theorem Trivia.exists_line {text : List Char} (trivia : Trivia text) :
    ∃ line left, text = line ++ left ∧ '\n' ∉ line ∧ NoMore (· ≠ '\n') left ∧ Trivia left := by
  induction trivia with
  | nil => exact ⟨[], [], rfl, by simp, by simp, .nil⟩
  | @space c rest listed after ih =>
      by_cases ends : c = '\n'
      · subst ends
        exact ⟨[], '\n' :: rest, rfl, by simp, by simp, .space listed after⟩
      · obtain ⟨line, left, rfl, sameLine, stops, trivia⟩ := ih
        refine ⟨c :: line, left, rfl, ?_, stops, trivia⟩
        simp [sameLine, Ne.symm ends]
  | @comment body rest sameLine after _ =>
      refine ⟨'/' :: '/' :: body, '\n' :: rest, rfl, ?_, by simp, ?_⟩
      · simpa using sameLine
      · exact .space (by decide) after

/-- Pieces that yield nothing. -/
def Quiet (pieces : List Piece) : Prop := ∀ piece ∈ pieces, piece.outcome = .nothing

theorem finds_of_quiet {pieces : List Piece} (quiet : Quiet pieces) (before : List Char) :
    finds before pieces = [] := by
  induction pieces generalizing before with
  | nil => rfl
  | cons piece rest ih =>
      have outcome := quiet piece List.mem_cons_self
      rw [finds, ih fun other member => quiet other (List.mem_cons_of_mem piece member)]
      simp [Piece.find?, outcome]

/-- **Trivia is cut into quiet pieces**, and what comes after it as if it came alone. -/
theorem Trivia.cutting {text after : List Char} {tail : List Piece} (trivia : Trivia text)
    (rest : Cutting after tail) :
    ∃ pieces, Quiet pieces ∧ pieces.flatMap Piece.text = text ∧
      Cutting (text ++ after) (pieces ++ tail) := by
  induction trivia with
  | nil => exact ⟨[], by simp [Quiet], rfl, rest⟩
  | @space c _ listed _ ih =>
      obtain ⟨pieces, quiet, whole, cutting⟩ := ih
      refine ⟨⟨[c], .nothing⟩ :: pieces, ?_, ?_, .cons (.space listed) cutting⟩
      · exact List.forall_mem_cons.mpr ⟨rfl, quiet⟩
      · simp [whole]
  | @comment body left sameLine _ ih =>
      obtain ⟨pieces, quiet, whole, cutting⟩ := ih
      have ended : Cutting ('\n' :: (left ++ after)) (newline :: (pieces ++ tail)) :=
        .cons (longest_newline _) cutting
      refine ⟨⟨'/' :: '/' :: body, .nothing⟩ :: newline :: pieces, ?_, ?_, ?_⟩
      · exact List.forall_mem_cons.mpr ⟨rfl, List.forall_mem_cons.mpr ⟨rfl, quiet⟩⟩
      · simp [whole, newline]
      · rw [List.append_assoc]
        exact .cons (.comment sameLine (by simp)) ended

/-! ## Putting trivia between pieces -/

section

variable {first second trivia : List Char} {kept tail : List Piece}

/-- White space can be put behind closed pieces the last of which is no comment. -/
theorem Cutting.insert_behind_code (whole : Cutting (first ++ second) (kept ++ tail))
    (closed : ∀ piece ∈ kept, ¬ piece.IsUnclosed)
    (code : ∀ piece ∈ kept.getLast?, ¬ piece.IsComment) {others : List Piece} {c : Char}
    (space : c ∈ [' ', '\r', '\t', '\n']) {rest : List Char}
    (spaced : Cutting (c :: rest) others) :
    Cutting (kept.flatMap Piece.text ++ c :: rest) (kept ++ others) := by
  have noDigit : NoMore Char.isDigit (c :: rest) := by
    rintro d ⟨⟩
    simp only [List.mem_cons, List.not_mem_nil, or_false] at space
    rcases space with rfl | rfl | rfl | rfl <;> rfl
  apply whole.exchange_last closed noDigit _ spaced
  intro piece last longest
  have member : piece ∈ kept := List.mem_of_getLast? last
  exact longest.before_space (closed piece member) (code piece last) space rest

/-- A comment goes on over any text that is put behind it, up to a line end. -/
theorem Cutting.insert_behind_comment {body : List Char}
    (whole : Cutting (first ++ second) (kept ++ ⟨'/' :: '/' :: body, .nothing⟩ :: tail))
    (closed : ∀ piece ∈ kept, ¬ piece.IsUnclosed) {line rest : List Char} {others : List Piece}
    (sameLine : '\n' ∉ line) (ends : NoMore (· ≠ '\n') rest) (left : Cutting rest others) :
    Cutting (kept.flatMap Piece.text ++ ('/' :: '/' :: (body ++ line) ++ rest))
      (kept ++ ⟨'/' :: '/' :: (body ++ line), .nothing⟩ :: others) := by
  have sameLine : '\n' ∉ body ++ line := by
    rcases whole.drop.longest.of_quiet with ⟨c, -, same⟩ | ⟨other, same, absent, -⟩
    · simp at same
    · obtain rfl : body = other := by simpa using same
      simp [absent, sameLine]
  have comment : Cutting ('/' :: '/' :: (body ++ line) ++ rest) (_ :: others) :=
    .cons (.comment sameLine ends) left
  apply whole.exchange_last closed (by simp) _ comment
  -- The slash of the comment is what the piece in front of it sees, now as before.
  intro piece last longest
  have slash : Longest piece (['/'] ++ ('/' :: body ++ tail.flatMap Piece.text)) := by
    simpa using longest
  have noDigit : NoMore Char.isDigit ('/' :: (body ++ line) ++ rest) := by simp
  exact slash.exchange_behind (closed piece (List.mem_of_getLast? last)) (by simp) noDigit

/-- Trivia behind a comment: its first line goes into the comment. -/
theorem Cutting.insert_trivia_behind_comment {body : List Char}
    (whole : Cutting (first ++ second) (kept ++ ⟨'/' :: '/' :: body, .nothing⟩ :: tail))
    (closed : ∀ piece ∈ kept, ¬ piece.IsUnclosed) (quiet : Trivia trivia) :
    ∃ others, Quiet others ∧ others.flatMap Piece.text = '/' :: '/' :: body ++ trivia ∧
      Cutting (kept.flatMap Piece.text ++ ('/' :: '/' :: body ++ trivia ++ tail.flatMap Piece.text))
        (kept ++ (others ++ tail)) := by
  have comment := whole.drop.longest
  have rest : Cutting (tail.flatMap Piece.text) tail := by
    rw [← List.singleton_append, ← List.append_assoc] at whole
    exact whole.drop
  obtain ⟨line, left, rfl, sameLine, stops, trivia⟩ := quiet.exists_line
  obtain ⟨others, silent, text, cutting⟩ := trivia.cutting rest
  have ends : NoMore (· ≠ '\n') (left ++ tail.flatMap Piece.text) := by
    cases left with
    | cons c left => exact fun d member => stops d member
    | nil =>
        rcases comment.of_quiet with ⟨c, -, same⟩ | ⟨_, -, -, stopped⟩
        · simp at same
        · exact stopped
  have inserted := whole.insert_behind_comment closed sameLine ends cutting
  refine ⟨⟨'/' :: '/' :: (body ++ line), .nothing⟩ :: others, ?_, ?_, ?_⟩
  · exact List.forall_mem_cons.mpr ⟨rfl, silent⟩
  · simp [text]
  · simpa using inserted

/-- **Trivia between pieces.**  Trivia with white space in front can be put behind any closed
pieces: nothing new is found, and what is behind it is found below the trivia's line ends. -/
theorem Cutting.insert_trivia (whole : Cutting (first ++ second) (kept ++ tail))
    (place : kept.flatMap Piece.text = first) (closed : ∀ piece ∈ kept, ¬ piece.IsUnclosed)
    (quiet : Trivia trivia) (spaced : ∃ c ∈ trivia.head?, c ∈ [' ', '\r', '\t', '\n']) :
    ∃ pieces, Cutting (first ++ (trivia ++ second)) pieces ∧
      finds [] pieces = finds [] kept ++ finds (first ++ trivia) tail := by
  have behind := whole.flatMap_text_tail place
  by_cases comment : ∃ piece ∈ kept.getLast?, piece.IsComment
  · obtain ⟨piece, last, body, rfl⟩ := comment
    obtain ⟨init, rfl⟩ := List.getLast?_eq_some_iff.mp last
    rw [List.append_assoc, List.singleton_append] at whole
    have closedInit : ∀ piece ∈ init, ¬ piece.IsUnclosed :=
      fun piece member => closed piece (List.mem_append_left _ member)
    obtain ⟨others, silent, text, cutting⟩ := whole.insert_trivia_behind_comment closedInit quiet
    rw [behind] at cutting
    refine ⟨init ++ (others ++ tail), ?_, ?_⟩
    · rw [← place]
      simpa using cutting
    · have single : Quiet [⟨'/' :: '/' :: body, .nothing⟩] := by simp [Quiet]
      rw [finds_append, finds_append, finds_append, finds_of_quiet silent, finds_of_quiet single,
        text, ← place]
      simp
  · obtain ⟨c, start, space⟩ := spaced
    obtain ⟨others, silent, text, cutting⟩ := quiet.cutting (behind ▸ whole.drop)
    obtain ⟨left, rfl⟩ := List.head?_eq_some_iff.mp start
    have code : ∀ piece ∈ kept.getLast?, ¬ piece.IsComment :=
      fun piece last isComment => comment ⟨piece, last, isComment⟩
    refine ⟨kept ++ (others ++ tail), ?_, ?_⟩
    · rw [← place]
      exact whole.insert_behind_code closed code space cutting
    · rw [finds_append, finds_append, finds_of_quiet silent, place, text]
      rfl

end

/-! ## Putting trivia into a text -/

/-- Whether a piece of a text ends where the first of two parts of it ends. -/
def EndsPiece (first second : List Char) : Prop :=
  ∃ kept tail, Cutting (first ++ second) (kept ++ tail) ∧ kept.flatMap Piece.text = first

/-- The pieces in front of a place are those of the text in front of it. -/
theorem Cutting.take {first second : List Char} {kept tail : List Piece}
    (whole : Cutting (first ++ second) (kept ++ tail)) (place : kept.flatMap Piece.text = first)
    (closed : ∀ piece ∈ kept, ¬ piece.IsUnclosed) : Cutting first kept := by
  have alone : Cutting (kept.flatMap Piece.text ++ []) (kept ++ []) := by
    apply whole.exchange_last closed (by simp) _ .nil
    intro piece last longest
    exact longest.exchange (closed piece (List.mem_of_getLast? last)) (by simp) (by simp)
  simpa [place] using alone

/-- Pieces that others follow are closed, and so are all pieces of a text without a report of
an open string. -/
theorem EndsPiece.exists_cutting {first second : List Char} (place : EndsPiece first second)
    (closed : ∀ report ∈ (Lexer.ofText first Recorder.empty).run.sink.reports.toList,
      report.message ≠ Report.unterminatedString) :
    ∃ kept, Cutting first kept ∧ (∀ piece ∈ kept, ¬ piece.IsUnclosed) ∧
      kept.flatMap Piece.text = first ∧
      Cutting (first ++ second) (kept ++ (segments second).map Segment.piece) := by
  obtain ⟨kept, tail, whole, place⟩ := place
  have behind := whole.flatMap_text_tail place
  have closedKept : ∀ piece ∈ kept, ¬ piece.IsUnclosed := by
    by_cases followed : tail = []
    · subst followed
      have alone : Cutting first kept := by simpa [← behind] using whole
      exact closed_of_reports alone closed
    · intro piece member
      obtain ⟨earlier, later, rfl⟩ := List.append_of_mem member
      rw [List.append_assoc, List.cons_append] at whole
      refine whole.drop.longest.closed_of_followed ?_
      obtain ⟨next, others, rfl⟩ := List.exists_cons_of_ne_nil followed
      simp [text_ne_nil_of_cutting whole next (by simp)]
  refine ⟨kept, whole.take place closedKept, closedKept, place, ?_⟩
  rw [← eq_segments_of_cutting (behind ▸ whole.drop)]
  exact whole

variable {Sink : Type} [ReportSink Sink]

/-- **Trivia between pieces.**  Take a place where a piece of a text ends and no string is
open, and trivia that starts with white space.  With the trivia put there, the tokens and
reports of what is in front of the place stay, and those behind it, the end of input
included, move down by the line ends of the trivia. -/
theorem run_insert_trivia (sink : Sink) {first second trivia : List Char}
    (place : EndsPiece first second)
    (closed : ∀ report ∈ (Lexer.ofText first Recorder.empty).run.sink.reports.toList,
      report.message ≠ Report.unterminatedString)
    (quiet : Trivia trivia) (spaced : ∃ c ∈ trivia.head?, c ∈ [' ', '\r', '\t', '\n']) :
    let front := (Lexer.ofText first Recorder.empty).run
    let plain := (Lexer.ofText (first ++ second) Recorder.empty).run
    let spread := (Lexer.ofText (first ++ trivia ++ second) sink).run
    let lines : Int := trivia.count '\n'
    (∃ found behind, front.tokens.toList = found ++ [.endOfInput (lineAfter first)] ∧
      plain.tokens.toList = found ++ behind ∧
      spread.tokens.toList = found ++ behind.map (Token.down lines)) ∧
    ∃ behind, plain.sink.reports.toList = front.sink.reports.toList ++ behind ∧
      spread.sink =
        ReportSink.reportAll sink
          (front.sink.reports.toList ++ behind.map (Report.down lines)) := by
  intro front plain spread lines
  obtain ⟨kept, cutFirst, closedKept, ends, whole⟩ := place.exists_cutting closed
  obtain ⟨pieces, cutSpread, found⟩ := whole.insert_trivia ends closedKept quiet spaced
  rw [← List.append_assoc] at cutSpread
  have split : finds [] (kept ++ (segments second).map Segment.piece) =
      finds [] kept ++ finds first ((segments second).map Segment.piece) := by
    rw [finds_append, ends, List.nil_append]
  have apart : (lineAfter first : Int) + lines = lineAfter (first ++ trivia) := by
    rw [lineAfter_append]
    rfl
  have last : (lineAfter (first ++ second) : Int) + lines =
      lineAfter (first ++ trivia ++ second) := by
    simp only [lineAfter_append, lines]
    omega
  refine ⟨⟨_, (finds first ((segments second).map Segment.piece)).filterMap Find.token? ++
      [.endOfInput (lineAfter (first ++ second))],
      tokens_run_of_cutting cutFirst Recorder.empty, ?_, ?_⟩,
    (finds first ((segments second).map Segment.piece)).filterMap Find.report?, ?_, ?_⟩
  · rw [tokens_run_of_cutting whole, split, List.filterMap_append, List.append_assoc]
  · rw [tokens_run_of_cutting cutSpread, found, List.filterMap_append, List.append_assoc,
      List.map_append, List.map_singleton, Token.down_endOfInput, last,
      filterMap_token?_finds first, filterMap_token?_finds (first ++ trivia),
      map_down_tokensFrom apart]
  · rw [reports_run_of_cutting whole, reports_run_of_cutting cutFirst, split,
      List.filterMap_append]
  · rw [sink_run_of_cutting cutSpread, reports_run_of_cutting cutFirst, found,
      List.filterMap_append, filterMap_report?_finds first,
      filterMap_report?_finds (first ++ trivia), map_down_reportsFrom apart]

/-- Behind a comment, over two lines, and in front of a string that nothing closes. -/
theorem run_insert_trivia_behind_comment :
    let first := "a//b".toList
    let trivia := "\t//c\n ".toList
    let second := "\n@\"d".toList
    let spread := (Lexer.ofText (first ++ trivia ++ second) Recorder.empty).run
    EndsPiece first second ∧
      (∀ report ∈ (Lexer.ofText first Recorder.empty).run.sink.reports.toList,
        report.message ≠ Report.unterminatedString) ∧
      Trivia trivia ∧ (∃ c ∈ trivia.head?, c ∈ [' ', '\r', '\t', '\n']) ∧
      spread.tokens.toList = [⟨.identifier, "a", .none, 1⟩, .endOfInput 3] ∧
      spread.sink.reports.toList =
        [⟨3, Report.unexpectedCharacter⟩, ⟨3, Report.unterminatedString⟩] := by
  intro first trivia second spread
  have place : EndsPiece first second := by
    have cutting := cutting_segments (first ++ second)
    rw [← List.take_append_drop 2 ((segments (first ++ second)).map Segment.piece)] at cutting
    exact ⟨_, _, cutting, by decide +kernel⟩
  have closed : ∀ report ∈ (Lexer.ofText first Recorder.empty).run.sink.reports.toList,
      report.message ≠ Report.unterminatedString := by decide +kernel
  have comment : Trivia ('/' :: '/' :: ['c'] ++ '\n' :: [' ']) :=
    .comment (by decide) (.space (by decide) .nil)
  have quiet : Trivia trivia := .space (by decide) comment
  have spaced : ∃ c ∈ trivia.head?, c ∈ [' ', '\r', '\t', '\n'] := ⟨'\t', rfl, by decide⟩
  obtain ⟨⟨found, behind, front, plain, tokens⟩, late, reports, sink⟩ :=
    run_insert_trivia Recorder.empty place closed quiet spaced
  have frontTokens : (Lexer.ofText first Recorder.empty).run.tokens.toList =
      [⟨.identifier, "a", .none, 1⟩] ++ [.endOfInput 1] := by decide +kernel
  have start : found = [⟨.identifier, "a", .none, 1⟩] :=
    List.append_cancel_right (front.symm.trans frontTokens)
  subst start
  have plainTokens : (Lexer.ofText (first ++ second) Recorder.empty).run.tokens.toList =
      [⟨.identifier, "a", .none, 1⟩] ++ [.endOfInput 2] := by decide +kernel
  have last : behind = [.endOfInput 2] := List.append_cancel_left (plain.symm.trans plainTokens)
  subst last
  have frontReports : (Lexer.ofText first Recorder.empty).run.sink.reports.toList = [] := by
    decide +kernel
  have plainReports : (Lexer.ofText (first ++ second) Recorder.empty).run.sink.reports.toList =
      [⟨2, Report.unexpectedCharacter⟩, ⟨2, Report.unterminatedString⟩] := by decide +kernel
  have both : late = [⟨2, Report.unexpectedCharacter⟩, ⟨2, Report.unterminatedString⟩] := by
    rw [frontReports, List.nil_append] at reports
    exact reports.symm.trans plainReports
  refine ⟨place, closed, quiet, spaced, tokens, ?_⟩
  rw [sink, frontReports, both, Recorder.toList_reportAll]
  rfl

end LoxLexer
