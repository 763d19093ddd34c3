/-
# LoxLexer.Lexer.Segment -- a source text as consecutive segments

Every source text falls into segments: tokens, blanks, line ends, comments and
the pieces that are no part of the language.  `Segment.cut` takes the first one
off a non-empty text.  Which segment it is depends on the first character and, for
some, on how far a run of characters goes:

* a punctuation mark is a segment of its own, an operator takes a directly
  following `=` with it, and two slashes take everything before the line's end;
* a quote takes everything up to the next quote, or everything if there is none;
* digits take the whole run, and a point with the run after it only if that run
  is not empty;
* a letter or underscore takes the whole run of letters, digits and underscores;
* any other character is a segment of its own, a stray.

Nothing is lost: `cut_append` says that a segment and what is left are the text.
What a segment contributes, a token, a complaint or nothing, is its `outcome`.
-/
import LoxLexer.Numeral.Reading
import LoxLexer.Report
import LoxLexer.Token.Basic

namespace LoxLexer

set_option autoImplicit false

open Numeral (Binary64)

/-! ## Characters -/

/-- A blank separates tokens and does not end the line. -/
def isBlank (c : Char) : Bool := c = ' ' || c = '\r' || c = '\t'

/-- A word starts with an ASCII letter or an underscore. -/
def isWordStart (c : Char) : Bool := c.isAlpha || c = '_'

/-- A word goes on with ASCII letters, digits and underscores. -/
def isWordPart (c : Char) : Bool := isWordStart c || c.isDigit

/-- The marks that are tokens whatever follows them. -/
def markKind? : Char → Option Kind
  | '(' => some .leftParen
  | ')' => some .rightParen
  | '{' => some .leftBrace
  | '}' => some .rightBrace
  | ',' => some .comma
  | '.' => some .dot
  | '-' => some .minus
  | '+' => some .plus
  | ';' => some .semicolon
  | '*' => some .star
  | _ => none

/-- The operators that may be followed by `=`: their kinds alone and with it. -/
def operatorKinds? : Char → Option (Kind × Kind)
  | '!' => some (.bang, .bangEqual)
  | '=' => some (.equal, .equalEqual)
  | '>' => some (.greater, .greaterEqual)
  | '<' => some (.less, .lessEqual)
  | _ => none

/-! The classes of characters that start segments are disjoint. -/

theorem markKind?_eq_none {c : Char} (part : isWordPart c = true) : markKind? c = none := by
  unfold markKind?
  split <;> first | rfl | exact absurd part (by decide)

theorem operatorKinds?_eq_none {c : Char} (part : isWordPart c = true) :
    operatorKinds? c = none := by
  unfold operatorKinds?
  split <;> first | rfl | exact absurd part (by decide)

theorem markKind?_of_operator {c : Char} {kinds : Kind × Kind}
    (found : operatorKinds? c = some kinds) : markKind? c = none := by
  unfold markKind?
  split <;> first | rfl | exact absurd found (by simp [operatorKinds?])

theorem isDigit_eq_false {c : Char} (start : isWordStart c = true) : c.isDigit = false := by
  by_cases underscore : c = '_'
  · subst underscore
    rfl
  · have alpha : c.isAlpha = true := by simpa [isWordStart, underscore] using start
    have unfolded : c.isAlpha = (decide (c.val ≥ 'A'.val ∧ c.val ≤ 'Z'.val) ||
        (c.val ≥ 'a'.val && c.val ≤ 'z'.val)) := rfl
    have letter : 65 ≤ c.toNat := by
      simp [unfolded, UInt32.le_iff_toNat_le] at alpha
      omega
    rw [← Bool.not_eq_true, Char.isDigit_iff_toNat]
    intro digit
    have upper : c.toNat ≤ 57 := digit.2
    omega

/-! ## Segments -/

/-- What a segment is. -/
inductive Shape where
  /-- A token with a fixed spelling. -/
  | symbol (kind : Kind)
  | blank
  | newline
  | comment
  /-- A string with both its quotes. -/
  | quoted
  /-- A string that the text ends in. -/
  | unclosed
  | number
  | word
  /-- A character that the language has no use for outside strings and comments. -/
  | stray
  deriving DecidableEq

/-- A piece of source text and what it is. -/
structure Segment where
  shape : Shape
  text : List Char

namespace Segment

/-- The segment that starts with an operator. -/
def cutOperator (c : Char) (bare withEqual : Kind) : List Char → Segment × List Char
  | '=' :: after => (⟨.symbol withEqual, [c, '=']⟩, after)
  | rest => (⟨.symbol bare, [c]⟩, rest)

/-- The segment that starts with a slash: a comment after a second slash.  The
line's end is no part of a comment. -/
def cutSlash : List Char → Segment × List Char
  | '/' :: rest =>
      (⟨.comment, '/' :: '/' :: rest.takeWhile (· ≠ '\n')⟩, rest.dropWhile (· ≠ '\n'))
  | rest => (⟨.symbol .slash, ['/']⟩, rest)

/-- The segment that starts with a quote. -/
def cutQuote (rest : List Char) : Segment × List Char :=
  match rest.dropWhile (· ≠ '"') with
  | [] => (⟨.unclosed, '"' :: rest⟩, [])
  | quote :: after => (⟨.quoted, '"' :: rest.takeWhile (· ≠ '"') ++ [quote]⟩, after)

/-- The segment that starts with a digit. -/
def cutNumber (c : Char) (rest : List Char) : Segment × List Char :=
  let whole := c :: rest.takeWhile Char.isDigit
  match rest.dropWhile Char.isDigit with
  | '.' :: digit :: after =>
      if digit.isDigit then
        (⟨.number, whole ++ '.' :: digit :: after.takeWhile Char.isDigit⟩,
          after.dropWhile Char.isDigit)
      else (⟨.number, whole⟩, '.' :: digit :: after)
  | after => (⟨.number, whole⟩, after)

/-- The first segment of the text `c :: rest`, and what is left. -/
def cut (c : Char) (rest : List Char) : Segment × List Char :=
  match markKind? c with
  | some kind => (⟨.symbol kind, [c]⟩, rest)
  | none =>
      match operatorKinds? c with
      | some (bare, withEqual) => cutOperator c bare withEqual rest
      | none =>
          if c = '/' then cutSlash rest
          else if isBlank c then (⟨.blank, [c]⟩, rest)
          else if c = '\n' then (⟨.newline, [c]⟩, rest)
          else if c = '"' then cutQuote rest
          else if c.isDigit then cutNumber c rest
          else if isWordStart c then
            (⟨.word, c :: rest.takeWhile isWordPart⟩, rest.dropWhile isWordPart)
          else (⟨.stray, [c]⟩, rest)

/-! ## Which segment a character starts -/

theorem cut_of_mark {c : Char} {kind : Kind} (found : markKind? c = some kind)
    (rest : List Char) : cut c rest = (⟨.symbol kind, [c]⟩, rest) := by
  simp only [cut, found]

theorem cut_of_operator {c : Char} {bare withEqual : Kind}
    (found : operatorKinds? c = some (bare, withEqual)) (rest : List Char) :
    cut c rest = cutOperator c bare withEqual rest := by
  simp only [cut, markKind?_of_operator found, found]

/-- Digits start numbers; the other characters of words start words. -/
theorem cut_of_wordPart {c : Char} (part : isWordPart c = true) (rest : List Char) :
    cut c rest =
      if c.isDigit then cutNumber c rest
      else (⟨.word, c :: rest.takeWhile isWordPart⟩, rest.dropWhile isWordPart) := by
  have other (d : Char) (noPart : isWordPart d = false) : c ≠ d := by
    rintro rfl
    simp [part] at noPart
  have blank : isBlank c = false := by
    simp [isBlank, other ' ' rfl, other '\r' rfl, other '\t' rfl]
  simp only [cut, markKind?_eq_none part, operatorKinds?_eq_none part, other '/' rfl, blank,
    other '\n' rfl, other '"' rfl, if_false, Bool.false_eq_true]
  by_cases digit : c.isDigit = true
  · simp only [digit, if_true]
  · have start : isWordStart c = true := by simpa [isWordPart, digit] using part
    simp only [digit, start, if_true]

theorem cut_of_digit {c : Char} (digit : c.isDigit = true) (rest : List Char) :
    cut c rest = cutNumber c rest := by
  rw [cut_of_wordPart (by simp [isWordPart, digit]), if_pos digit]

theorem cut_of_wordStart {c : Char} (start : isWordStart c = true) (rest : List Char) :
    cut c rest = (⟨.word, c :: rest.takeWhile isWordPart⟩, rest.dropWhile isWordPart) := by
  rw [cut_of_wordPart (by simp [isWordPart, start]), if_neg (by simp [isDigit_eq_false start])]

/-! ## Nothing is lost -/

@[simp] theorem cutOperator_append (c : Char) (bare withEqual : Kind) (rest : List Char) :
    (cutOperator c bare withEqual rest).1.text ++ (cutOperator c bare withEqual rest).2 =
      c :: rest := by
  unfold cutOperator
  split <;> simp

@[simp] theorem cutSlash_append (rest : List Char) :
    (cutSlash rest).1.text ++ (cutSlash rest).2 = '/' :: rest := by
  unfold cutSlash
  split
  · simp [List.takeWhile_append_dropWhile]
  · simp

@[simp] theorem cutQuote_append (rest : List Char) :
    (cutQuote rest).1.text ++ (cutQuote rest).2 = '"' :: rest := by
  have whole := List.takeWhile_append_dropWhile (p := (· ≠ '"')) (l := rest)
  unfold cutQuote
  split
  · simp
  · rename_i quote after found
    rw [found] at whole
    simpa using whole

@[simp] theorem cutNumber_append (c : Char) (rest : List Char) :
    (cutNumber c rest).1.text ++ (cutNumber c rest).2 = c :: rest := by
  have whole := List.takeWhile_append_dropWhile (p := Char.isDigit) (l := rest)
  simp only [cutNumber]
  split
  · rename_i digit after found
    rw [found] at whole
    split
    · have fraction := List.takeWhile_append_dropWhile (p := Char.isDigit) (l := after)
      simp only [List.cons_append, List.append_assoc, fraction, whole]
    · simp [whole]
  · simp

/-- A segment and what is left of the text after it are the text. -/
@[simp] theorem cut_append (c : Char) (rest : List Char) :
    (cut c rest).1.text ++ (cut c rest).2 = c :: rest := by
  unfold cut
  split
  · simp
  · split
    · exact cutOperator_append ..
    · split
      · subst c; exact cutSlash_append rest
      · split
        · simp
        · split
          · simp
          · split
            · subst c; exact cutQuote_append rest
            · split
              · exact cutNumber_append c rest
              · split
                · simp [List.takeWhile_append_dropWhile]
                · simp

@[simp] theorem cutOperator_text_ne_nil (c : Char) (bare withEqual : Kind) (rest : List Char) :
    (cutOperator c bare withEqual rest).1.text ≠ [] := by
  unfold cutOperator
  split <;> simp

@[simp] theorem cutSlash_text_ne_nil (rest : List Char) : (cutSlash rest).1.text ≠ [] := by
  unfold cutSlash
  split <;> simp

@[simp] theorem cutQuote_text_ne_nil (rest : List Char) : (cutQuote rest).1.text ≠ [] := by
  unfold cutQuote
  split <;> simp

@[simp] theorem cutNumber_text_ne_nil (c : Char) (rest : List Char) :
    (cutNumber c rest).1.text ≠ [] := by
  simp only [cutNumber]
  split
  · split <;> simp
  · simp

/-- A segment is never empty. -/
@[simp] theorem cut_text_ne_nil (c : Char) (rest : List Char) : (cut c rest).1.text ≠ [] := by
  unfold cut
  repeat' split
  all_goals simp

/-- Cutting makes progress: what is left is shorter than the text. -/
theorem length_cut_lt (c : Char) (rest : List Char) :
    (cut c rest).2.length < (c :: rest).length := by
  have whole := congrArg List.length (cut_append c rest)
  have progress := List.length_pos_iff.mpr (cut_text_ne_nil c rest)
  simp only [List.length_append] at whole
  omega

/-! ## What a segment contributes -/

/-- What the lexer does with a segment. -/
inductive Outcome where
  | token (kind : Kind) (literal : Literal)
  | complaint (message : String)
  | nothing

/-- The contribution of a segment.  The value of a string is what stands between
its quotes; the kind of a word depends on whether it is reserved. -/
def outcome (segment : Segment) : Outcome :=
  match segment.shape with
  | .symbol kind => .token kind .none
  | .blank => .nothing
  | .newline => .nothing
  | .comment => .nothing
  | .quoted => .token .string (.string (String.ofList segment.text.tail.dropLast))
  | .unclosed => .complaint Report.unterminatedString
  | .number => .token .number (.number (Binary64.ofNumeral segment.text))
  | .word => .token (Kind.ofWord (String.ofList segment.text)) .none
  | .stray => .complaint Report.unexpectedCharacter

/-- The number of lines that end within a segment. -/
def lineEnds (segment : Segment) : Nat := segment.text.count '\n'

end Segment

end LoxLexer
