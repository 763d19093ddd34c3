/-
# LoxLexer.Lexer.Reading -- reading by single moves is cutting off a segment

`Lexer.segment?` looks ahead and moves character by character; `Segment.cut` takes
a segment off a text in one go.  `segment?_eq_settle` says that the two agree:
reading passes the segment that `cut` finds, with the lines that end in it, and
makes what that segment contributes (`settle`).  From here on a lexer is reasoned
about by segments.

`run` reads segment by segment to the end and closes the token list with one
end-of-input token, once.  Its loop ends because each segment leaves less to read.
-/
import LoxLexer.Lexer.Basic

namespace LoxLexer

set_option autoImplicit false

open Numeral (Binary64)

namespace Lexer

variable {Sink : Type}

/-! ## Passing a segment -/

/-- Moves the cursor over characters and counts the lines that end in them. -/
def consume (lexer : Lexer Sink) (read rest : List Char) : Lexer Sink :=
  { lexer with pending := lexer.pending ++ read, rest, line := lexer.line + read.count '\n' }

/-- Moves the mark to the cursor and the cursor over a segment.  The line is that
of the segment's end. -/
def pass (lexer : Lexer Sink) (segment : Segment) (rest : List Char) : Lexer Sink :=
  lexer.mark.consume segment.text rest

/-- Passes a segment and makes its token or complaint. -/
def settle [ReportSink Sink] (lexer : Lexer Sink) (segment : Segment) (rest : List Char) :
    Lexer Sink :=
  let after := lexer.pass segment rest
  match segment.outcome with
  | .token kind literal => after.emit kind literal
  | .complaint message => after.complain ⟨after.line, message⟩
  | .nothing => after

section Pass

variable (lexer : Lexer Sink) (segment : Segment) (rest : List Char)

@[simp] theorem rest_pass : (lexer.pass segment rest).rest = rest := by
  simp [pass, consume, mark]

@[simp] theorem line_pass : (lexer.pass segment rest).line = lexer.line + segment.lineEnds := by
  simp [pass, consume, mark, Segment.lineEnds]

@[simp] theorem tokens_pass : (lexer.pass segment rest).tokens = lexer.tokens := by
  simp [pass, consume, mark]

@[simp] theorem complaints_pass : (lexer.pass segment rest).complaints = lexer.complaints := by
  simp [pass, consume, mark]

@[simp] theorem finished_pass : (lexer.pass segment rest).finished = lexer.finished := by
  simp [pass, consume, mark]

@[simp] theorem pending_pass : (lexer.pass segment rest).pending = segment.text := by
  simp [pass, consume, mark]

@[simp] theorem sink_pass : (lexer.pass segment rest).sink = lexer.sink := by
  simp [pass, consume, mark]

end Pass

@[simp] theorem consume_nil {lexer : Lexer Sink} {rest : List Char} (left : lexer.rest = rest) :
    lexer.consume [] rest = lexer := by
  subst left
  simp [consume]

@[simp] theorem consume_consume (lexer : Lexer Sink) (first second rest after : List Char) :
    (lexer.consume first rest).consume second after = lexer.consume (first ++ second) after := by
  simp [consume, Nat.add_assoc]

/-! ## Single moves -/

@[simp, grind →] theorem shift?_of_nil {lexer : Lexer Sink} (left : lexer.rest = []) :
    lexer.shift? = none := by
  simp [shift?, left]

@[grind →] theorem shift?_of_cons {lexer : Lexer Sink} {c : Char} {rest : List Char}
    (left : lexer.rest = c :: rest) :
    lexer.shift? = some (c, { lexer with pending := lexer.pending ++ [c], rest }) := by
  simp [shift?, left]

/-- A single move does not count lines, so it is a pass over one character only if
that character ends no line. -/
theorem shift?_eq_consume {lexer : Lexer Sink} {c : Char} {rest : List Char}
    (left : lexer.rest = c :: rest) (sameLine : c ≠ '\n') :
    lexer.shift? = some (c, lexer.consume [c] rest) := by
  simp [shift?, left, consume, sameLine]

/-- Counting the line end that was moved over makes up for that. -/
theorem endLine_eq_consume {lexer moved : Lexer Sink} {c : Char} {rest : List Char}
    (left : lexer.rest = c :: rest) (found : lexer.shift? = some (c, moved)) :
    (if c = '\n' then moved.endLine else moved) = lexer.consume [c] rest := by
  rw [shift?_of_cons left] at found
  cases found
  by_cases ends : c = '\n' <;> simp [ends, endLine, consume]

@[grind →] theorem lookahead_of_cons {lexer : Lexer Sink} {c : Char} {rest : List Char}
    (left : lexer.rest = c :: rest) : lexer.lookahead = c := by
  simp [lookahead, left]

/-! ## The loops -/

/-- The loop takes the longest run of characters that pass the test. -/
theorem shiftWhile_eq_consume {keep : Char → Bool} (refused : keep '\n' = false)
    (lexer : Lexer Sink) :
    lexer.shiftWhile keep =
      lexer.consume (lexer.rest.takeWhile keep) (lexer.rest.dropWhile keep) := by
  obtain ⟨text, left⟩ : ∃ text, lexer.rest = text := ⟨_, rfl⟩
  induction text generalizing lexer with
  | nil =>
      rw [shiftWhile, shift?_of_nil left, left]
      simp [left]
  | cons c rest ih =>
      rw [shiftWhile, lookahead_of_cons left, left]
      by_cases kept : keep c = true
      · have sameLine : c ≠ '\n' := by
          rintro rfl
          simp [refused] at kept
        rw [if_pos kept, shift?_eq_consume left sameLine]
        simp only [ih (lexer.consume [c] rest) rfl]
        rw [consume_consume, List.takeWhile_cons_of_pos kept, List.dropWhile_cons_of_pos kept]
        rfl
      · rw [if_neg kept, List.takeWhile_cons_of_neg kept, List.dropWhile_cons_of_neg kept,
          consume_nil left]

/-- The loop stops before the first quote and has counted the lines up to it. -/
theorem shiftToQuote_eq_consume (lexer : Lexer Sink) :
    lexer.shiftToQuote =
      lexer.consume (lexer.rest.takeWhile (· ≠ '"')) (lexer.rest.dropWhile (· ≠ '"')) := by
  obtain ⟨text, left⟩ : ∃ text, lexer.rest = text := ⟨_, rfl⟩
  induction text generalizing lexer with
  | nil =>
      rw [shiftToQuote, shift?_of_nil left, left]
      simp [left]
  | cons c rest ih =>
      rw [shiftToQuote, lookahead_of_cons left, left]
      by_cases closed : c = '"'
      · simp [closed, consume_nil (closed ▸ left)]
      · rw [if_pos closed, shift?_of_cons left]
        simp only [endLine_eq_consume left (shift?_of_cons left), ih (lexer.consume [c] rest) rfl]
        rw [consume_consume]
        simp [consume, closed]

/-! ## One segment -/

theorem shiftIf_of_cons {lexer : Lexer Sink} {expected : String} {c : Char} {rest : List Char}
    (spelled : expected.toList = [c]) (sameLine : c ≠ '\n') (left : lexer.rest = c :: rest) :
    lexer.shiftIf expected = (true, lexer.consume [c] rest) := by
  simp [shiftIf, shift?_eq_consume left sameLine, spelled]

theorem shiftIf_of_head?_ne {lexer : Lexer Sink} {expected : String} {c : Char}
    (spelled : expected.toList = [c]) (other : lexer.rest.head? ≠ some c) :
    lexer.shiftIf expected = (false, lexer) := by
  cases left : lexer.rest with
  | nil => simp [shiftIf, left]
  | cons next rest =>
      have different : c ≠ next := by
        rintro rfl
        simp [left] at other
      grind [shiftIf]

theorem shiftFraction_eq_consume {lexer : Lexer Sink} {digit : Char} {after : List Char}
    (left : lexer.rest = '.' :: digit :: after) (fraction : digit.isDigit = true) :
    lexer.shiftFraction =
      lexer.consume ('.' :: digit :: after.takeWhile Char.isDigit)
        (after.dropWhile Char.isDigit) := by
  have begins : (lexer.lookahead = '.' && lexer.secondLookahead.isDigit) = true := by
    simp [lookahead, secondLookahead, left, fraction]
  rw [shiftFraction, if_pos begins, shift?_eq_consume left (by decide)]
  simp only
  rw [shiftWhile_eq_consume (by decide), consume_consume]
  simp [consume, fraction]

/-- A point that no digit follows is left alone, also at the end of the text, where
the second lookahead is U+0000. -/
theorem shiftFraction_eq_self {lexer : Lexer Sink}
    (noFraction : ∀ digit after, lexer.rest = '.' :: digit :: after → digit.isDigit = false) :
    lexer.shiftFraction = lexer := by
  have refused : ¬ (lexer.lookahead = '.' && lexer.secondLookahead.isDigit) = true := by
    intro begins
    obtain ⟨point, fraction⟩ : lexer.lookahead = '.' ∧ lexer.secondLookahead.isDigit = true := by
      simpa using begins
    match left : lexer.rest with
    | [] => simp [lookahead, left] at point
    | [c] => simp [secondLookahead, left] at fraction
    | c :: digit :: after =>
        have isPoint : c = '.' := by simpa [lookahead, left] using point
        have isDigit : digit.isDigit = true := by simpa [secondLookahead, left] using fraction
        simp [noFraction digit after (isPoint ▸ left)] at isDigit
  rw [shiftFraction, if_neg refused]

variable [ReportSink Sink]

theorem readOperator_eq_settle (lexer : Lexer Sink) (c : Char) (rest : List Char)
    (bare withEqual : Kind) :
    (lexer.mark.consume [c] rest).readOperator bare withEqual =
      lexer.settle (Segment.cutOperator c bare withEqual rest).1
        (Segment.cutOperator c bare withEqual rest).2 := by
  unfold Segment.cutOperator
  split
  · rename_i after
    have left : (lexer.mark.consume [c] ('=' :: after)).rest = '=' :: after := rfl
    rw [readOperator, shiftIf_of_cons rfl (by decide) left, consume_consume]
    rfl
  · rename_i other
    have unfollowed : rest.head? ≠ some '=' := by
      intro found
      obtain ⟨after, rfl⟩ := List.head?_eq_some_iff.mp found
      exact other after rfl
    rw [readOperator, shiftIf_of_head?_ne (c := '=') rfl unfollowed]
    rfl

theorem readSlash_eq_settle (lexer : Lexer Sink) (rest : List Char) :
    (lexer.mark.consume ['/'] rest).readSlash =
      lexer.settle (Segment.cutSlash rest).1 (Segment.cutSlash rest).2 := by
  unfold Segment.cutSlash
  split
  · rename_i after
    have left : (lexer.mark.consume ['/'] ('/' :: after)).rest = '/' :: after := rfl
    rw [readSlash, shiftIf_of_cons rfl (by decide) left]
    simp only [if_true]
    rw [shiftWhile_eq_consume (by decide), consume_consume, consume_consume]
    rfl
  · rename_i other
    have unfollowed : rest.head? ≠ some '/' := by
      intro found
      obtain ⟨after, rfl⟩ := List.head?_eq_some_iff.mp found
      exact other after rfl
    rw [readSlash, shiftIf_of_head?_ne (c := '/') rfl unfollowed]
    rfl

theorem readQuoted_eq_settle (lexer : Lexer Sink) (rest : List Char) :
    (lexer.mark.consume ['"'] rest).readQuoted =
      lexer.settle (Segment.cutQuote rest).1 (Segment.cutQuote rest).2 := by
  have whole := List.takeWhile_append_dropWhile (p := (· ≠ '"')) (l := rest)
  have inside : (lexer.mark.consume ['"'] rest).shiftToQuote =
      lexer.mark.consume ('"' :: rest.takeWhile (· ≠ '"')) (rest.dropWhile (· ≠ '"')) := by
    rw [shiftToQuote_eq_consume, consume_consume]
    rfl
  unfold readQuoted Segment.cutQuote
  simp only [inside]
  cases found : rest.dropWhile (· ≠ '"') with
  | nil =>
      rw [found, List.append_nil] at whole
      rw [whole]
      rfl
  | cons quote after =>
      have isQuote : quote = '"' := by
        have stops := List.head?_dropWhile_not (· ≠ '"') rest
        rw [found] at stops
        simpa using stops
      subst isQuote
      rw [shift?_eq_consume rfl (by decide), consume_consume]
      rfl

theorem readNumber_eq_settle (lexer : Lexer Sink) (c : Char) (rest : List Char) :
    (lexer.mark.consume [c] rest).readNumber =
      lexer.settle (Segment.cutNumber c rest).1 (Segment.cutNumber c rest).2 := by
  have whole : (lexer.mark.consume [c] rest).shiftWhile Char.isDigit =
      lexer.mark.consume (c :: rest.takeWhile Char.isDigit) (rest.dropWhile Char.isDigit) := by
    rw [shiftWhile_eq_consume (by decide), consume_consume]
    rfl
  unfold readNumber Segment.cutNumber
  simp only [whole]
  split
  · rename_i digit after found
    split
    · rename_i fraction
      rw [shiftFraction_eq_consume found fraction, consume_consume]
      rfl
    · rename_i noDigit
      rw [shiftFraction_eq_self, found]
      · rfl
      · intro next left same
        have : digit = next := by simp_all [consume]
        simpa [← this] using noDigit
  · rename_i other
    rw [shiftFraction_eq_self]
    · rfl
    · intro next left same
      exact absurd same (other next left)

theorem readWord_eq_settle (lexer : Lexer Sink) (c : Char) (rest : List Char) :
    (lexer.mark.consume [c] rest).readWord =
      lexer.settle ⟨.word, c :: rest.takeWhile isWordPart⟩ (rest.dropWhile isWordPart) := by
  unfold readWord
  simp only
  rw [shiftWhile_eq_consume (by decide), consume_consume]
  rfl

/-- Reading on from the first character is passing the segment that starts with it. -/
theorem readAfter_eq_settle (lexer : Lexer Sink) {c : Char} (sameLine : c ≠ '\n')
    (rest : List Char) :
    (lexer.mark.consume [c] rest).readAfter c =
      lexer.settle (Segment.cut c rest).1 (Segment.cut c rest).2 := by
  unfold readAfter Segment.cut
  cases markKind? c with
  | some kind => rfl
  | none =>
      cases operatorKinds? c with
      | some kinds => exact readOperator_eq_settle lexer c rest kinds.1 kinds.2
      | none =>
          by_cases slash : c = '/'
          · subst slash
            exact readSlash_eq_settle lexer rest
          by_cases blank : isBlank c = true
          · simp only [slash, blank, if_true, if_false]
            rfl
          by_cases quote : c = '"'
          · subst quote
            exact readQuoted_eq_settle lexer rest
          simp only [slash, blank, sameLine, quote, if_false]
          by_cases digit : c.isDigit = true
          · simp only [digit, if_true]
            exact readNumber_eq_settle lexer c rest
          by_cases word : isWordStart c = true
          · simp only [digit, word, if_true]
            exact readWord_eq_settle lexer c rest
          simp only [digit, word]
          rfl

@[simp, grind →] theorem segment?_eq_none {lexer : Lexer Sink} (left : lexer.rest = []) :
    lexer.segment? = none := by
  have left : lexer.mark.rest = [] := left
  simp [segment?, left]

/-- **Reading a segment move by move is passing the segment that `cut` takes off.** -/
@[grind →] theorem segment?_eq_settle {lexer : Lexer Sink} {c : Char} {rest : List Char}
    (left : lexer.rest = c :: rest) :
    lexer.segment? = some (lexer.settle (Segment.cut c rest).1 (Segment.cut c rest).2) := by
  have left : lexer.mark.rest = c :: rest := left
  by_cases ends : c = '\n'
  · subst ends
    rw [segment?, shift?_of_cons left]
    rfl
  · rw [segment?, shift?_eq_consume left ends, Option.map_some]
    exact congrArg some (readAfter_eq_settle lexer ends rest)

@[simp] theorem rest_settle (lexer : Lexer Sink) (segment : Segment) (rest : List Char) :
    (lexer.settle segment rest).rest = rest := by
  cases made : segment.outcome <;> simp [settle, made, emit, complain]

/-! ## The whole text -/

/-- Reading a segment leaves less to read. -/
theorem length_segment?_lt {lexer after : Lexer Sink} (read : lexer.segment? = some after) :
    after.rest.length < lexer.rest.length := by
  cases left : lexer.rest with
  | nil => simp [left] at read
  | cons c rest =>
      rw [segment?_eq_settle left, Option.some.injEq] at read
      rw [← read, rest_settle]
      exact Segment.length_cut_lt c rest

/-- Reads segments up to the end of the text. -/
def drain (lexer : Lexer Sink) : Lexer Sink :=
  match _read : lexer.segment? with
  | none => lexer
  | some after => drain after
termination_by lexer.rest.length
decreasing_by exact length_segment?_lt _read

/-- Reads to the end of the text and adds the end-of-input token.  A lexer that
has done so stays as it is. -/
def run (lexer : Lexer Sink) : Lexer Sink :=
  if lexer.finished then lexer
  else
    let drained := lexer.drain
    { drained with
      tokens := drained.tokens.push (.endOfInput drained.line)
      finished := true }

@[simp] theorem drain_of_nil {lexer : Lexer Sink} (left : lexer.rest = []) :
    lexer.drain = lexer := by
  unfold drain
  split
  · rfl
  · rename_i after read
    simp [left] at read

theorem drain_of_cons {lexer : Lexer Sink} {c : Char} {rest : List Char}
    (left : lexer.rest = c :: rest) :
    lexer.drain = (lexer.settle (Segment.cut c rest).1 (Segment.cut c rest).2).drain := by
  conv => lhs; unfold drain
  split
  · rename_i unread
    simp [segment?_eq_settle left] at unread
  · rename_i after read
    rw [segment?_eq_settle left, Option.some.injEq] at read
    rw [read]

/-- Induction along the loop: what holds of every exhausted lexer, and of a lexer
whenever it holds after its next segment, holds of every lexer. -/
theorem drain_induction {motive : Lexer Sink → Prop}
    (nil : ∀ lexer : Lexer Sink, lexer.rest = [] → motive lexer)
    (cons : ∀ (lexer : Lexer Sink) (c : Char) (rest : List Char), lexer.rest = c :: rest →
      motive (lexer.settle (Segment.cut c rest).1 (Segment.cut c rest).2) → motive lexer)
    (lexer : Lexer Sink) : motive lexer := by
  fun_induction drain lexer with
  | case1 lexer unread =>
      apply nil
      cases left : lexer.rest with
      | nil => rfl
      | cons c rest => grind
  | case2 lexer after read ih =>
      cases left : lexer.rest with
      | nil => exact nil lexer left
      | cons c rest =>
          rw [segment?_eq_settle left, Option.some.injEq] at read
          exact cons lexer c rest left (read ▸ ih)

end Lexer

end LoxLexer
