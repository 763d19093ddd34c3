/-
# LoxLexer.Proofs.Joining -- a text and what is put after it

Two laws about texts that are put together.

* A line end is a safe cut: unless the first text leaves a string open, the text
  `first ++ '\n' :: second` has the tokens and reports of the first text, then those
  of the second, further down (`run_append_newline`).  Every lookahead takes a line
  end for an end.
* More text changes little: the reports of stray characters stay, and so do all
  tokens but the last (`run_append`).  Only where a text ends in a number and a point
  may the last two change, for `1.` becomes one number with a digit after it.

Both come from pieces that stay the longest when the text after them changes
(`Cutting.exchange`).
-/
import LoxLexer.Proofs.Alarm
import LoxLexer.Proofs.Boundary
import LoxLexer.Proofs.Resumption

namespace LoxLexer

set_option autoImplicit false

variable {Sink : Type} [ReportSink Sink]

/-! ## The reports of pieces -/

/-- The reports of a fresh lexer that records them are those of its pieces. -/
theorem reports_run_of_cutting {text : List Char} {pieces : List Piece}
    (cutting : Cutting text pieces) :
    (Lexer.ofText text Recorder.empty).run.sink.reports.toList =
      (finds [] pieces).filterMap Find.report? := by
  rw [sink_run_of_cutting cutting, Recorder.toList_reportAll]
  rfl

/-- A text with no report of an unclosed string has closed pieces only. -/
theorem closed_of_reports {text : List Char} {pieces : List Piece}
    (cutting : Cutting text pieces)
    (closed : ∀ report ∈ (Lexer.ofText text Recorder.empty).run.sink.reports.toList,
      report.message ≠ Report.unterminatedString) :
    ∀ piece ∈ pieces, ¬ piece.IsUnclosed := by
  intro piece member unclosed
  obtain ⟨line, found⟩ := mem_finds_of_mem member []
  have made : piece.find? line = some (.report ⟨line, Report.unterminatedString⟩) := by
    rw [Piece.find?, unclosed]
  refine closed ⟨line, Report.unterminatedString⟩ ?_ rfl
  rw [reports_run_of_cutting cutting, List.mem_filterMap]
  exact ⟨_, found _ made, rfl⟩

/-! ## A line end between texts -/

/-- Closed pieces stand before a line end as they stand at the end of a text. -/
theorem Cutting.append_newline {first second : List Char} {pieces others : List Piece}
    (cutting : Cutting first pieces) (closed : ∀ piece ∈ pieces, ¬ piece.IsUnclosed)
    (rest : Cutting second others) :
    Cutting (first ++ '\n' :: second) (pieces ++ newline :: others) := by
  have ended : Cutting ('\n' :: second) (newline :: others) := .cons (longest_newline second) rest
  have text := flatMap_text_of_cutting cutting
  rw [← List.append_nil pieces] at cutting
  rw [← text]
  refine cutting.exchange (fun earlier piece later split longest => ?_) ended
  have member : piece ∈ pieces := by
    rw [split]
    simp
  rw [List.flatMap_nil, List.append_nil] at longest
  exact longest.append_newline (closed piece member) second

/-- What follows a line end stands below the first text and that line end. -/
theorem lineAfter_newline (first second : List Char) :
    lineAfter (first ++ '\n' :: second) = lineAfter second + (1 + first.count '\n') := by
  rw [lineAfter_append, List.count_cons_self, lineAfter, lineAfter]
  omega

/-- **A line end is a safe cut.**  If the first text leaves no string open, the tokens and
reports of two texts with a line end between them are those of the first and those of
the second, the latter further down by the lines of the first and one. -/
theorem run_append_newline (sink : Sink) (first second : List Char)
    (closed : ∀ report ∈ (Lexer.ofText first Recorder.empty).run.sink.reports.toList,
      report.message ≠ Report.unterminatedString) :
    let before := (Lexer.ofText first Recorder.empty).run
    let later := (Lexer.ofText second Recorder.empty).run
    let whole := (Lexer.ofText (first ++ '\n' :: second) sink).run
    let lines : Int := 1 + first.count '\n'
    (∃ found, before.tokens.toList = found ++ [.endOfInput (lineAfter first)] ∧
      whole.tokens.toList = found ++ later.tokens.toList.map (Token.down lines)) ∧
    whole.sink =
      ReportSink.reportAll sink
        (before.sink.reports.toList ++ later.sink.reports.toList.map (Report.down lines)) := by
  intro before later whole lines
  have cutFirst := cutting_segments first
  have cutSecond := cutting_segments second
  have cutWhole := cutFirst.append_newline (closed_of_reports cutFirst closed) cutSecond
  have start : [] ++ ((segments first).map Segment.piece).flatMap Piece.text = first := by
    rw [flatMap_text_of_cutting cutFirst, List.nil_append]
  -- The line end yields nothing, and the second text starts on the line after it.
  have split : finds [] ((segments first).map Segment.piece ++
        newline :: (segments second).map Segment.piece) =
      finds [] ((segments first).map Segment.piece) ++
        finds (first ++ ['\n']) ((segments second).map Segment.piece) := by
    rw [finds_append, start]
    rfl
  have apart : ((lineAfter [] : Nat) : Int) + lines = lineAfter (first ++ ['\n']) := by
    rw [lineAfter_newline]
    omega
  refine ⟨⟨_, tokens_run_of_cutting cutFirst Recorder.empty, ?_⟩, ?_⟩
  · have last : (lineAfter second : Int) + lines = lineAfter (first ++ '\n' :: second) := by
      rw [lineAfter_newline]
      omega
    rw [tokens_run_of_cutting cutWhole, tokens_run_of_cutting cutSecond, split,
      List.filterMap_append, List.map_append, filterMap_token?_finds [] (segments second),
      filterMap_token?_finds (first ++ ['\n']), map_down_tokensFrom apart, List.map_singleton,
      Token.down_endOfInput, last, List.append_assoc]
  · rw [sink_run_of_cutting cutWhole, reports_run_of_cutting cutFirst,
      reports_run_of_cutting cutSecond, split, List.filterMap_append,
      filterMap_report?_finds [] (segments second), filterMap_report?_finds (first ++ ['\n']),
      map_down_reportsFrom apart]

/-- A quote in a comment at the end of a text opens no string in the next one. -/
theorem run_append_newline_after_comment :
    (∀ report ∈ (Lexer.ofText "a@//\"".toList Recorder.empty).run.sink.reports.toList,
      report.message ≠ Report.unterminatedString) ∧
    (Lexer.ofText ("a@//\"".toList ++ '\n' :: "/\"".toList) Recorder.empty).run.tokens.toList =
      [⟨.identifier, "a", .none, 1⟩, ⟨.slash, "/", .none, 2⟩, .endOfInput 2] ∧
    (Lexer.ofText ("a@//\"".toList ++ '\n' :: "/\"".toList)
        Recorder.empty).run.sink.reports.toList =
      [⟨1, Report.unexpectedCharacter⟩, ⟨2, Report.unterminatedString⟩] := by
  have closed : ∀ report ∈ (Lexer.ofText "a@//\"".toList Recorder.empty).run.sink.reports.toList,
      report.message ≠ Report.unterminatedString := by decide +kernel
  obtain ⟨⟨found, before, whole⟩, sink⟩ :=
    run_append_newline Recorder.empty "a@//\"".toList "/\"".toList closed
  have tokens : (Lexer.ofText "a@//\"".toList Recorder.empty).run.tokens.toList =
      [⟨.identifier, "a", .none, 1⟩] ++ [.endOfInput 1] := by decide +kernel
  have first : found = [⟨.identifier, "a", .none, 1⟩] :=
    List.append_cancel_right (before.symm.trans tokens)
  refine ⟨closed, ?_, ?_⟩
  · rw [whole, first]
    decide +kernel
  · rw [sink, Recorder.toList_reportAll]
    decide +kernel

/-! ## More text: tokens -/

/-- Whether a text ends in a number and a point directly after it. -/
def EndsInPoint (text : List Char) : Prop :=
  ∃ pieces number point, Cutting text (pieces ++ [number, point]) ∧ number.IsNumber ∧
    point.text = ['.']

/-- Pieces of a text that others follow stay its pieces if more text is added, unless the
last of them is a number and a lone point follows. -/
theorem Cutting.append {text more : List Char} {kept tail others : List Piece}
    (cutting : Cutting text (kept ++ tail)) (followed : tail ≠ [])
    (pointless : ∀ earlier number, kept = earlier ++ [number] → number.IsNumber →
      tail.flatMap Piece.text ≠ ['.'])
    (rest : Cutting (tail.flatMap Piece.text ++ more) others) :
    Cutting (text ++ more) (kept ++ others) := by
  have nonempty := text_ne_nil_of_cutting cutting
  have text := flatMap_text_of_cutting cutting
  have tailNonempty : tail.flatMap Piece.text ≠ [] := by
    obtain ⟨first, others, rfl⟩ := List.exists_cons_of_ne_nil followed
    simp [nonempty first (by simp)]
  rw [← text, List.flatMap_append, List.append_assoc]
  refine cutting.exchange (fun earlier piece later split longest => ?_) rest
  rw [← List.append_assoc]
  refine longest.append (by simp [tailNonempty]) (fun number lone => ?_) more
  cases later with
  | nil => exact pointless earlier piece split number lone
  | cons next later =>
      -- Two pieces are too long to be a lone point.
      have nextNonempty := nonempty next (by simp [split])
      have lengths := congrArg List.length lone
      have nextLength := List.length_pos_iff.mpr nextNonempty
      have tailLength := List.length_pos_iff.mpr tailNonempty
      simp only [List.flatMap_cons, List.length_append, List.length_singleton] at lengths
      omega

theorem length_finds_le (before : List Char) (pieces : List Piece) :
    (finds before pieces).length ≤ pieces.length := by
  induction pieces generalizing before with
  | nil => simp [finds]
  | cons piece rest ih =>
      have atMostOne : (piece.find? (lineAfter (before ++ piece.text))).toList.length ≤ 1 := by
        cases piece.find? (lineAfter (before ++ piece.text)) <;> simp
      have others := ih (before ++ piece.text)
      rw [finds, List.length_append, List.length_cons]
      omega

/-- Dropping as many tokens as there are pieces after a place leaves tokens before it. -/
theorem prefix_take_tokens (kept tail : List Piece) :
    let found := (finds [] (kept ++ tail)).filterMap Find.token?
    found.take (found.length - tail.length) <+: (finds [] kept).filterMap Find.token? := by
  intro found
  have tailLength : ((finds ([] ++ kept.flatMap Piece.text) tail).filterMap
      Find.token?).length ≤ tail.length :=
    Nat.le_trans (List.length_filterMap_le _ _) (length_finds_le _ tail)
  have split : found = (finds [] kept).filterMap Find.token? ++
      (finds ([] ++ kept.flatMap Piece.text) tail).filterMap Find.token? := by
    rw [← List.filterMap_append, ← finds_append]
  have length := congrArg List.length split
  rw [List.length_append] at length
  rw [split, List.take_append_of_le_length (by rw [← split]; omega)]
  exact List.take_prefix _ _

/-- Tokens of pieces that others follow, unless the last of them is a number and a lone
point follows, are tokens of the text with more text after it too. -/
theorem tokens_run_append {text : List Char} {kept tail : List Piece}
    (cutting : Cutting text (kept ++ tail)) (followed : tail ≠ [])
    (pointless : ∀ earlier number, kept = earlier ++ [number] → number.IsNumber →
      tail.flatMap Piece.text ≠ ['.']) (sink : Sink) (more : List Char) :
    let found := (finds [] (kept ++ tail)).filterMap Find.token?
    found.take (found.length - tail.length) <+:
      (Lexer.ofText (text ++ more) sink).run.tokens.toList := by
  intro found
  have rest := cutting_segments (tail.flatMap Piece.text ++ more)
  have whole := cutting.append followed pointless rest
  rw [tokens_run_of_cutting whole, finds_append, List.filterMap_append, List.append_assoc]
  exact (prefix_take_tokens kept tail).trans (List.prefix_append _ _)

/-! ## More text: reports -/

/-- Reading a text raises alarms at stray characters, whatever follows, and leads the
machine to a mode in which it reads what follows. -/
theorem alarmsFrom_append (mode : Mode) (line : Nat) (text : List Char) :
    ∃ (strays : List Nat) (next : Mode) (last : Nat), ∀ more,
      alarmsFrom mode line (text ++ more) =
        strays.map Alarm.unexpected ++ alarmsFrom next last more := by
  induction text generalizing mode line with
  | nil => exact ⟨[], mode, line, fun more => rfl⟩
  | cons c rest ih =>
      obtain ⟨strays, next, last, read⟩ :=
        ih (mode.read c).1 (if c = '\n' then line + 1 else line)
      refine ⟨(if (mode.read c).2 then [line] else []) ++ strays, next, last, fun more => ?_⟩
      rw [List.cons_append, alarmsFrom, read, List.map_append, List.append_assoc]
      cases (mode.read c).2 <;> rfl

/-- Reports without that of a string that the text leaves open, which comes last. -/
def settledReports (reports : List Report) : List Report :=
  if reports.getLast?.map Report.message = some Report.unterminatedString then reports.dropLast
  else reports

theorem reports_run_of_alarms (text : List Char) :
    (Lexer.ofText text Recorder.empty).run.sink.reports.toList =
      (alarms text).map Alarm.report := by
  rw [sink_run_of_alarms, Recorder.toList_reportAll]
  rfl

/-- At the end of a text the machine raises at most the alarm of an open string, and that
one is not settled. -/
theorem settledReports_alarms (strays : List Nat) (next : Mode) (last : Nat) :
    settledReports ((strays.map Alarm.unexpected ++ alarmsFrom next last []).map Alarm.report) =
      (strays.map Alarm.unexpected).map Alarm.report := by
  by_cases open_ : next = .string
  · subst open_
    have ending : alarmsFrom .string last [] = [.unterminated last] := rfl
    have message : (Alarm.unterminated last).report.message = Report.unterminatedString := rfl
    rw [ending, List.map_append, List.map_singleton, settledReports, List.getLast?_concat,
      Option.map_some, if_pos (congrArg some message), List.dropLast_concat]
  · have ending : alarmsFrom next last [] = [] := by simp [alarmsFrom, open_]
    rw [ending, List.append_nil, settledReports, if_neg]
    intro unterminated
    obtain ⟨report, final, message⟩ := Option.map_eq_some_iff.mp unterminated
    have member := List.mem_of_getLast? final
    simp only [List.map_map, List.mem_map, Function.comp_apply] at member
    obtain ⟨line, -, rfl⟩ := member
    have other : Report.unexpectedCharacter ≠ Report.unterminatedString := by decide
    exact other message

/-- The reports of a text, but for that of an open string, are reports of the text with
more text after it. -/
theorem settledReports_run_append (text more : List Char) :
    settledReports (Lexer.ofText text Recorder.empty).run.sink.reports.toList <+:
      (Lexer.ofText (text ++ more) Recorder.empty).run.sink.reports.toList := by
  obtain ⟨strays, next, last, read⟩ := alarmsFrom_append .code 1 text
  have alone := read []
  rw [List.append_nil] at alone
  rw [reports_run_of_alarms, reports_run_of_alarms, alarms, alone, settledReports_alarms, alarms,
    read, List.map_append]
  exact List.prefix_append _ _

/-- **More text changes little.**  If more text is put after a text, its reports stay
the first ones, but for that of a string that the text leaves open, and its tokens stay
the first ones, but for the last, or the last two if it ends in a number and a point. -/
theorem run_append (sink : Sink) (text more : List Char) :
    let before := (Lexer.ofText text sink).run
    let whole := (Lexer.ofText (text ++ more) sink).run
    (∃ found, before.tokens.toList = found ++ [.endOfInput (lineAfter text)] ∧
      (¬ EndsInPoint text → found.dropLast <+: whole.tokens.toList) ∧
      (EndsInPoint text → found.dropLast.dropLast <+: whole.tokens.toList)) ∧
    settledReports (Lexer.ofText text Recorder.empty).run.sink.reports.toList <+:
      (Lexer.ofText (text ++ more) Recorder.empty).run.sink.reports.toList := by
  intro before whole
  have cutting := cutting_segments text
  refine ⟨⟨_, tokens_run_of_cutting cutting sink, fun settled => ?_, ?_⟩,
    settledReports_run_append text more⟩
  · generalize (segments text).map Segment.piece = pieces at cutting
    rcases pieces.eq_nil_or_concat with rfl | ⟨kept, last, rfl⟩
    · exact List.nil_prefix
    · rw [List.concat_eq_append] at cutting
      rw [List.concat_eq_append, List.dropLast_eq_take]
      refine tokens_run_append cutting (by simp) (fun earlier number split isNumber lone => ?_)
        sink more
      refine settled ⟨earlier, number, last, ?_, isNumber, by simpa using lone⟩
      rw [split, List.append_assoc] at cutting
      exact cutting
  · rintro ⟨kept, number, point, ends, -, lone⟩
    have pointless : [number, point].flatMap Piece.text ≠ ['.'] := by
      simp [lone, text_ne_nil_of_cutting ends number (by simp)]
    rw [← eq_segments_of_cutting ends, List.dropLast_eq_take, List.dropLast_eq_take,
      List.take_take, List.length_take, Nat.min_eq_left (by omega), Nat.min_eq_left (by omega)]
    exact tokens_run_append ends (by simp) (fun _ _ _ _ => pointless) sink more

/-- A digit after `1.` changes both tokens that were there. -/
example :
    (Lexer.ofText "1.".toList Recorder.empty).run.tokens.toList.map Token.lexeme =
        ["1", ".", ""] ∧
      (Lexer.ofText ("1.".toList ++ "5".toList) Recorder.empty).run.tokens.toList.map
        Token.lexeme = ["1.5", ""] := by
  decide +kernel

end LoxLexer
