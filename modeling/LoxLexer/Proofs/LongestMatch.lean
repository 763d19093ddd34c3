/-
# LoxLexer.Proofs.LongestMatch -- every text is read in one way, by longest match

`Longest piece after` states the language's lexical rules one by one: what may stand
at the start of a text that goes on with `after`, and what it yields.  The rules
speak of the piece and of what follows it, never of how a lexer finds it.

`Cutting text pieces` cuts a text into such pieces from end to end.  The main
statement, `run_eq_cutting`, is that a text has exactly one cutting and that a fresh
lexer finds the tokens and reports of that cutting and nothing else, whoever listens
to the reports.  The lexer side enters through `Segment.cut`, which takes off the
piece that the rules name (`longest_cut`) and the only one (`cut_of_longest`).
-/
import LoxLexer.Lexer.Segments

namespace LoxLexer

set_option autoImplicit false

open Numeral (Binary64)

/-! ## The rules -/

/-- A piece of text and what it yields. -/
structure Piece where
  text : List Char
  outcome : Segment.Outcome

/-- What follows does not go on with a character of a class. -/
def NoMore (among : Char → Bool) (after : List Char) : Prop :=
  ∀ c ∈ after.head?, among c = false

/-- The marks that are tokens whatever follows them, with their kinds. -/
def marks : List (Char × Kind) :=
  [('(', .leftParen), (')', .rightParen), ('{', .leftBrace), ('}', .rightBrace), (',', .comma),
   ('.', .dot), ('-', .minus), ('+', .plus), (';', .semicolon), ('*', .star)]

/-- The operators that take a directly following `=` with them, with their kinds
alone and together with it. -/
def operators : List (Char × Kind × Kind) :=
  [('!', .bang, .bangEqual), ('=', .equal, .equalEqual), ('<', .less, .lessEqual),
   ('>', .greater, .greaterEqual)]

/-- The characters of words. -/
def inWord (c : Char) : Bool := c.isAlphanum || c = '_'

/-- The characters, apart from those of words, that the language has a use for
outside strings and comments. -/
def signs : List Char :=
  ['(', ')', '{', '}', ',', '.', '-', '+', ';', '*', '!', '=', '<', '>', '/', ' ', '\r', '\t',
   '\n', '"']

/-- `Longest piece after`: of a text that starts with the piece and goes on with
`after`, the piece is the longest that one of the lexical rules takes. -/
inductive Longest : Piece → List Char → Prop
  | mark {c : Char} {kind : Kind} {after : List Char} :
      (c, kind) ∈ marks → Longest ⟨[c], .token kind .none⟩ after
  | operator {c : Char} {bare withEqual : Kind} {after : List Char} :
      (c, bare, withEqual) ∈ operators → NoMore (· = '=') after →
      Longest ⟨[c], .token bare .none⟩ after
  | operatorEqual {c : Char} {bare withEqual : Kind} {after : List Char} :
      (c, bare, withEqual) ∈ operators → Longest ⟨[c, '='], .token withEqual .none⟩ after
  | slash {after : List Char} :
      NoMore (· = '/') after → Longest ⟨['/'], .token .slash .none⟩ after
  | comment {body after : List Char} :
      '\n' ∉ body → NoMore (· ≠ '\n') after → Longest ⟨'/' :: '/' :: body, .nothing⟩ after
  | space {c : Char} {after : List Char} :
      c ∈ [' ', '\r', '\t', '\n'] → Longest ⟨[c], .nothing⟩ after
  /-- A string's value is what stands between its quotes. -/
  | string {body after : List Char} :
      '"' ∉ body →
      Longest ⟨'"' :: body ++ ['"'], .token .string (.string (String.ofList body))⟩ after
  /-- A quote that nothing closes takes the whole text. -/
  | unterminated {body : List Char} :
      '"' ∉ body → Longest ⟨'"' :: body, .complaint Report.unterminatedString⟩ []
  /-- Digits alone: a point after them belongs to the number only with a digit. -/
  | integer {digits after : List Char} :
      digits ≠ [] → (∀ d ∈ digits, d.isDigit = true) → NoMore Char.isDigit after →
      (∀ d rest, after = '.' :: d :: rest → d.isDigit = false) →
      Longest ⟨digits, .token .number (.number (Binary64.ofNumeral digits))⟩ after
  | decimal {whole fraction after : List Char} :
      whole ≠ [] → (∀ d ∈ whole, d.isDigit = true) →
      fraction ≠ [] → (∀ d ∈ fraction, d.isDigit = true) → NoMore Char.isDigit after →
      Longest ⟨whole ++ '.' :: fraction,
        .token .number (.number (Binary64.ofNumeral (whole ++ '.' :: fraction)))⟩ after
  | keyword {word : Keyword} {after : List Char} :
      NoMore inWord after → Longest ⟨word.spelling.toList, .token (.keyword word) .none⟩ after
  | identifier {c : Char} {others after : List Char} :
      c.isAlpha = true ∨ c = '_' → (∀ d ∈ others, inWord d = true) → NoMore inWord after →
      (∀ word : Keyword, word.spelling.toList ≠ c :: others) →
      Longest ⟨c :: others, .token .identifier .none⟩ after
  | stray {c : Char} {after : List Char} :
      inWord c = false → c ∉ signs → Longest ⟨[c], .complaint Report.unexpectedCharacter⟩ after

/-! ## Where a run of characters stops -/

@[simp] theorem noMore_nil (among : Char → Bool) : NoMore among [] := by
  rintro c ⟨⟩

@[simp] theorem noMore_cons {among : Char → Bool} {c : Char} {rest : List Char} :
    NoMore among (c :: rest) ↔ among c = false := by
  simp [NoMore]

theorem takeWhile_of_noMore {keep : Char → Bool} {body after : List Char}
    (kept : ∀ c ∈ body, keep c = true) (stops : NoMore keep after) :
    (body ++ after).takeWhile keep = body := by
  rw [List.takeWhile_append_of_pos kept]
  cases after with
  | nil => simp
  | cons c rest => simp [stops c rfl]

theorem dropWhile_of_noMore {keep : Char → Bool} {body after : List Char}
    (kept : ∀ c ∈ body, keep c = true) (stops : NoMore keep after) :
    (body ++ after).dropWhile keep = after := by
  rw [List.dropWhile_append_of_pos kept]
  cases after with
  | nil => rfl
  | cons c rest => simp [stops c rfl]

theorem noMore_dropWhile (keep : Char → Bool) (text : List Char) :
    NoMore keep (text.dropWhile keep) := by
  intro c member
  have stops := List.head?_dropWhile_not keep text
  rw [Option.mem_def.mp member] at stops
  simpa using stops

theorem inWord_eq_isWordPart (c : Char) : inWord c = isWordPart c := by
  simp only [inWord, isWordPart, isWordStart, Char.isAlphanum]
  ac_rfl

theorem inWord_of_isDigit {c : Char} (digit : c.isDigit = true) : inWord c = true := by
  simp [inWord, Char.isAlphanum, digit]

/-- A name that starts with a letter or an underscore is a word throughout. -/
theorem inWord_of_start {c : Char} {others : List Char} (start : c.isAlpha = true ∨ c = '_')
    (kept : ∀ d ∈ others, inWord d = true) : ∀ d ∈ c :: others, inWord d = true := by
  rw [List.forall_mem_cons]
  refine ⟨?_, kept⟩
  rcases start with alpha | rfl
  · simp [inWord, Char.isAlphanum, alpha]
  · rfl

theorem inWord_of_mem_spelling (word : Keyword) : ∀ d ∈ word.spelling.toList, inWord d = true := by
  have part : word.spelling.toList.all inWord = true := by cases word <;> decide
  exact List.all_eq_true.mp part

theorem mem_marks_iff {c : Char} {kind : Kind} :
    (c, kind) ∈ marks ↔ markKind? c = some kind := by
  constructor
  · intro listed
    simp only [marks, List.mem_cons, Prod.mk.injEq, List.not_mem_nil, or_false] at listed
    rcases listed with ⟨rfl, rfl⟩ | ⟨rfl, rfl⟩ | ⟨rfl, rfl⟩ | ⟨rfl, rfl⟩ | ⟨rfl, rfl⟩ | ⟨rfl, rfl⟩ |
      ⟨rfl, rfl⟩ | ⟨rfl, rfl⟩ | ⟨rfl, rfl⟩ | ⟨rfl, rfl⟩ <;> rfl
  · intro found
    unfold markKind? at found
    split at found <;> simp_all [marks]

theorem mem_operators_iff {c : Char} {kinds : Kind × Kind} :
    (c, kinds) ∈ operators ↔ operatorKinds? c = some kinds := by
  constructor
  · intro listed
    simp only [operators, List.mem_cons, Prod.mk.injEq, List.not_mem_nil, or_false] at listed
    rcases listed with ⟨rfl, rfl⟩ | ⟨rfl, rfl⟩ | ⟨rfl, rfl⟩ | ⟨rfl, rfl⟩ <;> rfl
  · intro found
    unfold operatorKinds? at found
    split at found <;> simp_all [operators]

/-! ## Cutting off the longest piece -/

/-- A segment without its shape: its text and what it yields. -/
def Segment.piece (segment : Segment) : Piece := ⟨segment.text, segment.outcome⟩

theorem ne_of_not_mem_signs {c d : Char} (unlisted : c ∉ signs) (known : d ∈ signs) : c ≠ d := by
  rintro rfl
  exact unlisted known

theorem mem_signs_of_mem_marks {c : Char} {kind : Kind} (listed : (c, kind) ∈ marks) :
    c ∈ signs := by
  have known : ∀ entry ∈ marks, entry.1 ∈ signs := by decide
  exact known _ listed

theorem mem_signs_of_mem_operators {c : Char} {kinds : Kind × Kind}
    (listed : (c, kinds) ∈ operators) : c ∈ signs := by
  have known : ∀ entry ∈ operators, entry.1 ∈ signs := by decide
  exact known _ listed

theorem cut_of_stray {c : Char} (foreign : inWord c = false) (unlisted : c ∉ signs)
    (rest : List Char) : Segment.cut c rest = (⟨.stray, [c]⟩, rest) := by
  have noMark : markKind? c = none := by
    cases found : markKind? c with
    | none => rfl
    | some kind => exact absurd (mem_signs_of_mem_marks (mem_marks_iff.mpr found)) unlisted
  have noOperator : operatorKinds? c = none := by
    cases found : operatorKinds? c with
    | none => rfl
    | some kinds =>
        exact absurd (mem_signs_of_mem_operators (mem_operators_iff.mpr found)) unlisted
  have other (d : Char) (known : d ∈ signs) : c ≠ d := ne_of_not_mem_signs unlisted known
  have blank : isBlank c = false := by
    simp [isBlank, other ' ' (by decide), other '\r' (by decide), other '\t' (by decide)]
  have part : isWordPart c = false := by rw [← inWord_eq_isWordPart, foreign]
  have classes : isWordStart c = false ∧ c.isDigit = false := by simpa [isWordPart] using part
  simp only [Segment.cut, noMark, noOperator, other '/' (by decide), blank, other '\n' (by decide),
    other '"' (by decide), classes.1, classes.2, if_false, Bool.false_eq_true]

theorem all_ne_of_not_mem {d : Char} {body : List Char} (absent : d ∉ body) :
    ∀ c ∈ body, decide (c ≠ d) = true := by
  intro c member
  have different : c ≠ d := by
    rintro rfl
    exact absent member
  simp [different]

theorem cutOperator_of_noMore {c : Char} {bare withEqual : Kind} {after : List Char}
    (stops : NoMore (· = '=') after) :
    Segment.cutOperator c bare withEqual after = (⟨.symbol bare, [c]⟩, after) := by
  unfold Segment.cutOperator
  split
  · exact absurd (stops '=' rfl) (by decide)
  · rfl

theorem cutSlash_of_noMore {after : List Char} (stops : NoMore (· = '/') after) :
    Segment.cutSlash after = (⟨.symbol .slash, ['/']⟩, after) := by
  unfold Segment.cutSlash
  split
  · exact absurd (stops '/' rfl) (by decide)
  · rfl

theorem cutSlash_comment {body after : List Char} (sameLine : '\n' ∉ body)
    (stops : NoMore (· ≠ '\n') after) :
    Segment.cutSlash ('/' :: (body ++ after)) = (⟨.comment, '/' :: '/' :: body⟩, after) := by
  have kept := all_ne_of_not_mem sameLine
  rw [Segment.cutSlash, takeWhile_of_noMore kept stops, dropWhile_of_noMore kept stops]

theorem cutQuote_closed {body after : List Char} (unquoted : '"' ∉ body) :
    Segment.cutQuote (body ++ '"' :: after) = (⟨.quoted, '"' :: body ++ ['"']⟩, after) := by
  have kept := all_ne_of_not_mem unquoted
  have stops : NoMore (fun c => decide (c ≠ '"')) ('"' :: after) := by simp
  simp only [Segment.cutQuote, takeWhile_of_noMore kept stops, dropWhile_of_noMore kept stops]

theorem cutQuote_unclosed {body : List Char} (unquoted : '"' ∉ body) :
    Segment.cutQuote body = (⟨.unclosed, '"' :: body⟩, []) := by
  have kept := all_ne_of_not_mem unquoted
  have stops : NoMore (fun c => decide (c ≠ '"')) [] := noMore_nil _
  have none := dropWhile_of_noMore kept stops
  rw [List.append_nil] at none
  simp only [Segment.cutQuote, none]

theorem cutNumber_integer {c : Char} {digits after : List Char}
    (kept : ∀ d ∈ digits, d.isDigit = true) (stops : NoMore Char.isDigit after)
    (noFraction : ∀ d rest, after = '.' :: d :: rest → d.isDigit = false) :
    Segment.cutNumber c (digits ++ after) = (⟨.number, c :: digits⟩, after) := by
  simp only [Segment.cutNumber, takeWhile_of_noMore kept stops, dropWhile_of_noMore kept stops]
  split
  · rename_i d rest
    simp [noFraction d rest rfl]
  · rfl

theorem cutNumber_decimal {c d : Char} {whole fraction after : List Char}
    (wholeKept : ∀ d ∈ whole, d.isDigit = true) (digit : d.isDigit = true)
    (fractionKept : ∀ d ∈ fraction, d.isDigit = true) (stops : NoMore Char.isDigit after) :
    Segment.cutNumber c (whole ++ '.' :: d :: (fraction ++ after)) =
      (⟨.number, c :: whole ++ '.' :: d :: fraction⟩, after) := by
  have point : NoMore Char.isDigit ('.' :: d :: (fraction ++ after)) := noMore_cons.mpr rfl
  simp only [Segment.cutNumber, takeWhile_of_noMore wholeKept point,
    dropWhile_of_noMore wholeKept point, digit, if_true, takeWhile_of_noMore fractionKept stops,
    dropWhile_of_noMore fractionKept stops]

theorem cut_word {c : Char} {others after : List Char} (start : isWordStart c = true)
    (kept : ∀ d ∈ others, isWordPart d = true) (stops : NoMore isWordPart after) :
    Segment.cut c (others ++ after) = (⟨.word, c :: others⟩, after) := by
  rw [Segment.cut_of_wordStart start, takeWhile_of_noMore kept stops,
    dropWhile_of_noMore kept stops]

/-- Reserved words are words. -/
theorem spelling_isWord (word : Keyword) : ∃ c others, word.spelling.toList = c :: others ∧
    isWordStart c = true ∧ ∀ d ∈ others, isWordPart d = true := by
  cases word <;> exact ⟨_, _, rfl, by decide, List.all_eq_true.mp (by decide)⟩

/-- **The only piece.**  A piece that a rule takes is the one that is cut off. -/
theorem cut_of_longest {piece : Piece} {after : List Char} (longest : Longest piece after) :
    ∃ c rest, piece.text ++ after = c :: rest ∧ (Segment.cut c rest).1.piece = piece ∧
      (Segment.cut c rest).2 = after := by
  cases longest with
  | mark listed =>
      refine ⟨_, after, rfl, ?_⟩
      rw [Segment.cut_of_mark (mem_marks_iff.mp listed)]
      exact ⟨rfl, rfl⟩
  | operator listed stops =>
      refine ⟨_, after, rfl, ?_⟩
      rw [Segment.cut_of_operator (mem_operators_iff.mp listed), cutOperator_of_noMore stops]
      exact ⟨rfl, rfl⟩
  | operatorEqual listed =>
      refine ⟨_, '=' :: after, rfl, ?_⟩
      rw [Segment.cut_of_operator (mem_operators_iff.mp listed)]
      exact ⟨rfl, rfl⟩
  | slash stops =>
      refine ⟨'/', after, rfl, ?_⟩
      have cut : Segment.cut '/' after = _ := cutSlash_of_noMore stops
      rw [cut]
      exact ⟨rfl, rfl⟩
  | @comment body _ sameLine stops =>
      refine ⟨'/', '/' :: (body ++ after), rfl, ?_⟩
      have cut : Segment.cut '/' ('/' :: (body ++ after)) = _ := cutSlash_comment sameLine stops
      rw [cut]
      exact ⟨rfl, rfl⟩
  | space listed =>
      refine ⟨_, after, rfl, ?_⟩
      simp only [List.mem_cons, List.not_mem_nil, or_false] at listed
      rcases listed with rfl | rfl | rfl | rfl <;> exact ⟨rfl, rfl⟩
  | @string body _ unquoted =>
      refine ⟨'"', body ++ '"' :: after, by simp, ?_⟩
      have cut : Segment.cut '"' (body ++ '"' :: after) = _ := cutQuote_closed unquoted
      rw [cut]
      simp [Segment.piece, Segment.outcome]
  | @unterminated body unquoted =>
      refine ⟨'"', body, by simp, ?_⟩
      have cut : Segment.cut '"' body = _ := cutQuote_unclosed unquoted
      rw [cut]
      exact ⟨rfl, rfl⟩
  | @integer digits _ nonempty kept stops noFraction =>
      obtain ⟨c, others, rfl⟩ := List.exists_cons_of_ne_nil nonempty
      rw [List.forall_mem_cons] at kept
      refine ⟨c, others ++ after, rfl, ?_⟩
      rw [Segment.cut_of_digit kept.1, cutNumber_integer kept.2 stops noFraction]
      exact ⟨rfl, rfl⟩
  | @decimal whole fraction _ nonempty wholeKept fractionNonempty fractionKept stops =>
      obtain ⟨c, others, rfl⟩ := List.exists_cons_of_ne_nil nonempty
      obtain ⟨d, digits, rfl⟩ := List.exists_cons_of_ne_nil fractionNonempty
      rw [List.forall_mem_cons] at wholeKept fractionKept
      refine ⟨c, others ++ '.' :: d :: (digits ++ after), by simp, ?_⟩
      rw [Segment.cut_of_digit wholeKept.1,
        cutNumber_decimal wholeKept.2 fractionKept.1 fractionKept.2 stops]
      exact ⟨rfl, rfl⟩
  | @keyword word _ stops =>
      obtain ⟨c, others, spelled, start, kept⟩ := spelling_isWord word
      rw [funext inWord_eq_isWordPart] at stops
      refine ⟨c, others ++ after, by simp [spelled], ?_⟩
      have reserved : Kind.ofWord (String.ofList (c :: others)) = .keyword word := by
        rw [← spelled, String.ofList_toList, Kind.ofWord_spelling]
      rw [cut_word start kept stops]
      simp only [Segment.piece, Segment.outcome, spelled, reserved, and_self]
  | @identifier c others _ start kept stops unreserved =>
      rw [funext inWord_eq_isWordPart] at kept stops
      have start : isWordStart c = true := by simpa [isWordStart] using start
      have unreserved : Kind.ofWord (String.ofList (c :: others)) = .identifier := by
        refine Kind.ofWord_of_unreserved fun word same => unreserved word ?_
        rw [same, String.toList_ofList]
      refine ⟨c, others ++ after, rfl, ?_⟩
      rw [cut_word start kept stops]
      simp only [Segment.piece, Segment.outcome, unreserved, and_self]
  | stray foreign unlisted =>
      refine ⟨_, after, rfl, ?_⟩
      rw [cut_of_stray foreign unlisted]
      exact ⟨rfl, rfl⟩

theorem not_mem_takeWhile_ne (d : Char) (text : List Char) :
    d ∉ text.takeWhile (fun c => decide (c ≠ d)) := by
  intro member
  simpa using List.all_eq_true.mp List.all_takeWhile _ member

theorem longest_cutOperator {c : Char} {bare withEqual : Kind}
    (listed : (c, bare, withEqual) ∈ operators) (rest : List Char) :
    Longest (Segment.cutOperator c bare withEqual rest).1.piece
      (Segment.cutOperator c bare withEqual rest).2 := by
  unfold Segment.cutOperator
  split
  · exact .operatorEqual listed
  · rename_i other
    refine .operator listed fun next found => ?_
    obtain ⟨after, rfl⟩ := List.head?_eq_some_iff.mp found
    have different : next ≠ '=' := by
      rintro rfl
      exact other after rfl
    simp [different]

theorem longest_cutSlash (rest : List Char) :
    Longest (Segment.cutSlash rest).1.piece (Segment.cutSlash rest).2 := by
  unfold Segment.cutSlash
  split
  · rename_i after
    exact .comment (not_mem_takeWhile_ne '\n' after) (noMore_dropWhile _ after)
  · rename_i other
    refine .slash fun next found => ?_
    obtain ⟨after, rfl⟩ := List.head?_eq_some_iff.mp found
    have different : next ≠ '/' := by
      rintro rfl
      exact other after rfl
    simp [different]

theorem longest_cutQuote (rest : List Char) :
    Longest (Segment.cutQuote rest).1.piece (Segment.cutQuote rest).2 := by
  have whole := List.takeWhile_append_dropWhile (p := (· ≠ '"')) (l := rest)
  have unquoted := not_mem_takeWhile_ne '"' rest
  unfold Segment.cutQuote
  split
  · rename_i found
    rw [found, List.append_nil] at whole
    rw [whole] at unquoted
    exact .unterminated unquoted
  · rename_i quote after found
    have isQuote : quote = '"' := by
      have stops := List.head?_dropWhile_not (· ≠ '"') rest
      rw [found] at stops
      simpa using stops
    subst isQuote
    have value : ('"' :: rest.takeWhile (· ≠ '"') ++ ['"']).tail.dropLast =
        rest.takeWhile (· ≠ '"') := by
      simp
    simp only [Segment.piece, Segment.outcome, value]
    exact .string unquoted

theorem longest_cutNumber {c : Char} (digit : c.isDigit = true) (rest : List Char) :
    Longest (Segment.cutNumber c rest).1.piece (Segment.cutNumber c rest).2 := by
  have kept : ∀ d ∈ c :: rest.takeWhile Char.isDigit, d.isDigit = true := by
    simpa [digit] using List.all_eq_true.mp List.all_takeWhile
  have stops := noMore_dropWhile Char.isDigit rest
  unfold Segment.cutNumber
  split
  · rename_i d after found
    rw [found] at stops
    split
    · rename_i fraction
      have fractionKept : ∀ e ∈ d :: after.takeWhile Char.isDigit, e.isDigit = true := by
        simpa [fraction] using List.all_eq_true.mp List.all_takeWhile
      exact .decimal (by simp) kept (by simp) fractionKept (noMore_dropWhile _ after)
    · rename_i noDigit
      refine .integer (by simp) kept stops fun e rest same => ?_
      have : d = e := by simp_all
      simpa [← this] using noDigit
  · rename_i other
    refine .integer (by simp) kept stops fun e rest same => ?_
    exact absurd same (other e rest)

theorem longest_word {c : Char} (start : isWordStart c = true) (rest : List Char) :
    Longest (Segment.piece ⟨.word, c :: rest.takeWhile isWordPart⟩)
      (rest.dropWhile isWordPart) := by
  have stops := noMore_dropWhile isWordPart rest
  have kept : ∀ d ∈ rest.takeWhile isWordPart, isWordPart d = true :=
    List.all_eq_true.mp List.all_takeWhile
  rw [← funext inWord_eq_isWordPart] at stops kept ⊢
  by_cases reserved : ∃ word : Keyword, word.spelling.toList = c :: rest.takeWhile inWord
  · obtain ⟨word, spelled⟩ := reserved
    have kind : Kind.ofWord (String.ofList (c :: rest.takeWhile inWord)) = .keyword word := by
      rw [← spelled, String.ofList_toList, Kind.ofWord_spelling]
    simp only [Segment.piece, Segment.outcome, kind]
    rw [← spelled]
    exact .keyword stops
  · have kind : Kind.ofWord (String.ofList (c :: rest.takeWhile inWord)) = .identifier := by
      refine Kind.ofWord_of_unreserved fun word same => reserved ⟨word, ?_⟩
      rw [same, String.toList_ofList]
    simp only [Segment.piece, Segment.outcome, kind]
    exact .identifier (by simpa [isWordStart] using start) kept stops
      fun word spelled => reserved ⟨word, spelled⟩

/-- A character that starts nothing else starts no piece but itself. -/
theorem not_mem_signs {c : Char} (noMark : markKind? c = none)
    (noOperator : operatorKinds? c = none) (slash : c ≠ '/') (blank : isBlank c = false)
    (newline : c ≠ '\n') (quote : c ≠ '"') : c ∉ signs := by
  intro known
  simp only [signs, List.mem_cons, List.not_mem_nil, or_false] at known
  rcases known with rfl | rfl | rfl | rfl | rfl | rfl | rfl | rfl | rfl | rfl | rfl | rfl | rfl |
    rfl | rfl | rfl | rfl | rfl | rfl | rfl <;>
    simp [markKind?, operatorKinds?, isBlank] at noMark noOperator slash blank newline quote

/-- **What is cut off is the longest piece.** -/
theorem longest_cut (c : Char) (rest : List Char) :
    Longest (Segment.cut c rest).1.piece (Segment.cut c rest).2 := by
  cases marked : markKind? c with
  | some kind =>
      rw [Segment.cut_of_mark marked]
      exact .mark (mem_marks_iff.mpr marked)
  | none =>
      cases operator : operatorKinds? c with
      | some kinds =>
          rw [Segment.cut_of_operator operator]
          exact longest_cutOperator (mem_operators_iff.mpr operator) rest
      | none =>
          by_cases slash : c = '/'
          · subst slash
            exact longest_cutSlash rest
          by_cases quote : c = '"'
          · subst quote
            exact longest_cutQuote rest
          by_cases digit : c.isDigit = true
          · rw [Segment.cut_of_digit digit]
            exact longest_cutNumber digit rest
          by_cases start : isWordStart c = true
          · rw [Segment.cut_of_wordStart start]
            exact longest_word start rest
          by_cases newline : c = '\n'
          · subst newline
            exact .space (by decide)
          by_cases blank : isBlank c = true
          · simp only [isBlank, Bool.or_eq_true, decide_eq_true_eq] at blank
            rcases blank with (rfl | rfl) | rfl <;> exact .space (by decide)
          have foreign : inWord c = false := by
            simp [inWord_eq_isWordPart, isWordPart, start, digit]
          have unlisted : c ∉ signs :=
            not_mem_signs marked operator slash (by simpa using blank) newline quote
          rw [cut_of_stray foreign unlisted]
          exact .stray foreign unlisted

/-! ## Cutting a whole text -/

/-- A text cut into pieces from end to end, each the longest where it starts. -/
inductive Cutting : List Char → List Piece → Prop
  | nil : Cutting [] []
  | cons {piece : Piece} {after : List Char} {pieces : List Piece} :
      Longest piece after → Cutting after pieces →
      Cutting (piece.text ++ after) (piece :: pieces)

theorem cutting_segments (text : List Char) :
    Cutting text ((segments text).map Segment.piece) := by
  fun_induction segments text with
  | case1 => exact .nil
  | case2 c rest ih =>
      rw [← Segment.cut_append c rest]
      exact .cons (longest_cut c rest) ih

/-- **A text has one cutting.** -/
theorem eq_segments_of_cutting {text : List Char} {pieces : List Piece}
    (cutting : Cutting text pieces) : pieces = (segments text).map Segment.piece := by
  induction cutting with
  | nil => rw [segments_nil, List.map_nil]
  | cons longest _ ih =>
      obtain ⟨c, rest, text, same, left⟩ := cut_of_longest longest
      rw [text, segments_cons, List.map_cons, same, left, ← ih]

theorem flatMap_text_of_cutting {text : List Char} {pieces : List Piece}
    (cutting : Cutting text pieces) : pieces.flatMap Piece.text = text := by
  induction cutting with
  | nil => rfl
  | cons _ _ ih => rw [List.flatMap_cons, ih]

theorem text_ne_nil_of_longest {piece : Piece} {after : List Char}
    (longest : Longest piece after) : piece.text ≠ [] := by
  obtain ⟨c, rest, -, rfl, -⟩ := cut_of_longest longest
  exact Segment.cut_text_ne_nil c rest

/-- The kinds that no mark, operator or reserved word has. -/
def openKinds : List Kind := [.identifier, .string, .number, .endOfInput]

/-- What a piece can be that yields a token: a word that is not reserved, a string, a number,
or one of the lexemes that have kinds of their own. -/
theorem token_of_longest {piece : Piece} {after : List Char} (longest : Longest piece after)
    {kind : Kind} {literal : Literal} (made : piece.outcome = .token kind literal) :
    (kind = .identifier ∧ literal = .none ∧ ∀ c ∈ piece.text, inWord c = true) ∨
    (kind = .string ∧ ∃ body, piece.text = '"' :: body ++ ['"'] ∧
      literal = .string (String.ofList body)) ∨
    (kind = .number ∧ literal = .number (Binary64.ofNumeral piece.text)) ∨
    (kind ∉ openKinds ∧ literal = .none) := by
  have operatorKinds : ∀ entry ∈ operators, entry.2.1 ∉ openKinds ∧ entry.2.2 ∉ openKinds := by
    decide
  cases longest with
  | mark listed =>
      have known : ∀ entry ∈ marks, entry.2 ∉ openKinds := by decide
      cases made
      exact .inr (.inr (.inr ⟨known _ listed, rfl⟩))
  | operator listed =>
      cases made
      exact .inr (.inr (.inr ⟨(operatorKinds _ listed).1, rfl⟩))
  | operatorEqual listed =>
      cases made
      exact .inr (.inr (.inr ⟨(operatorKinds _ listed).2, rfl⟩))
  | slash =>
      cases made
      exact .inr (.inr (.inr ⟨by decide, rfl⟩))
  | keyword =>
      cases made
      exact .inr (.inr (.inr ⟨by simp [openKinds], rfl⟩))
  | string =>
      cases made
      exact .inr (.inl ⟨rfl, _, rfl, rfl⟩)
  | integer =>
      cases made
      exact .inr (.inr (.inl ⟨rfl, rfl⟩))
  | decimal =>
      cases made
      exact .inr (.inr (.inl ⟨rfl, rfl⟩))
  | @identifier c others _ start kept =>
      cases made
      exact .inl ⟨rfl, rfl, inWord_of_start start kept⟩
  | _ => cases made

/-- No piece yields an end of input. -/
theorem kind_ne_endOfInput_of_longest {piece : Piece} {after : List Char}
    (longest : Longest piece after) {kind : Kind} {literal : Literal}
    (made : piece.outcome = .token kind literal) : kind ≠ .endOfInput := by
  rcases token_of_longest longest made with ⟨rfl, -⟩ | ⟨rfl, -⟩ | ⟨rfl, -⟩ | ⟨closed, -⟩
  · decide
  · decide
  · decide
  · rintro rfl
    exact closed (by decide)

/-- The value that a lexeme of a kind denotes. -/
def Kind.value (kind : Kind) (lexeme : List Char) : Literal :=
  match kind with
  | .string => .string (String.ofList (lexeme.drop 1).dropLast)
  | .number => .number (Binary64.ofNumeral lexeme)
  | _ => .none

theorem Kind.value_eq_none {kind : Kind} (noString : kind ≠ .string) (noNumber : kind ≠ .number)
    (lexeme : List Char) : kind.value lexeme = .none := by
  unfold value
  split
  · exact absurd rfl noString
  · exact absurd rfl noNumber
  · rfl

/-- What a piece denotes is told by its kind and its text. -/
theorem literal_eq_of_longest {piece : Piece} {after : List Char} (longest : Longest piece after)
    {kind : Kind} {literal : Literal} (made : piece.outcome = .token kind literal) :
    literal = kind.value piece.text := by
  rcases token_of_longest longest made with
    ⟨rfl, none, -⟩ | ⟨rfl, body, text, value⟩ | ⟨rfl, value⟩ | ⟨closed, none⟩
  · exact none
  · rw [value, text]
    simp [Kind.value]
  · exact value
  · rw [none, Kind.value_eq_none]
    · rintro rfl
      exact closed (by decide)
    · rintro rfl
      exact closed (by decide)

theorem text_ne_nil_of_cutting {text : List Char} {pieces : List Piece}
    (cutting : Cutting text pieces) : ∀ piece ∈ pieces, piece.text ≠ [] := by
  induction cutting with
  | nil => simp
  | cons longest _ ih => exact List.forall_mem_cons.mpr ⟨text_ne_nil_of_longest longest, ih⟩

/-! ## What a cutting yields -/

/-- Something that a lexer finds in a text. -/
inductive Find where
  | token (token : Token)
  | report (report : Report)

namespace Find

def token? : Find → Option Token
  | .token found => some found
  | .report _ => none

def report? : Find → Option Report
  | .token _ => none
  | .report found => some found

/-- The line that a token or report carries. -/
def line : Find → Int
  | .token found => found.line
  | .report found => found.line

end Find

/-- The line at the end of a text.  Lines count from one and only U+000A ends one. -/
def lineAfter (text : List Char) : Nat := 1 + text.count '\n'

/-- What a piece yields if it ends on a line. -/
def Piece.find? (line : Nat) (piece : Piece) : Option Find :=
  match piece.outcome with
  | .token kind literal => some (.token ⟨kind, String.ofList piece.text, literal, line⟩)
  | .complaint message => some (.report ⟨line, message⟩)
  | .nothing => none

/-- What the pieces after the text `before` yield, in order, each on the line that
it ends on. -/
def finds (before : List Char) : List Piece → List Find
  | [] => []
  | piece :: rest =>
      (piece.find? (lineAfter (before ++ piece.text))).toList ++ finds (before ++ piece.text) rest

@[simp] theorem lineAfter_append (first second : List Char) :
    lineAfter (first ++ second) = lineAfter first + second.count '\n' := by
  simp [lineAfter, Nat.add_assoc]

@[simp] theorem filterMap_token?_finds (before : List Char) (pieces : List Segment) :
    (finds before (pieces.map Segment.piece)).filterMap Find.token? =
      tokensFrom (lineAfter before) pieces := by
  induction pieces generalizing before with
  | nil => rfl
  | cons segment rest ih =>
      rw [List.map_cons, finds, tokensFrom, List.filterMap_append, ih, lineAfter_append]
      congr 1
      cases made : segment.outcome <;>
        simp [Piece.find?, Segment.piece, Segment.tokens, Segment.lineEnds, made, Find.token?]

@[simp] theorem filterMap_report?_finds (before : List Char) (pieces : List Segment) :
    (finds before (pieces.map Segment.piece)).filterMap Find.report? =
      reportsFrom (lineAfter before) pieces := by
  induction pieces generalizing before with
  | nil => rfl
  | cons segment rest ih =>
      rw [List.map_cons, finds, reportsFrom, List.filterMap_append, ih, lineAfter_append]
      congr 1
      cases made : segment.outcome <;>
        simp [Piece.find?, Segment.piece, Segment.reports, Segment.lineEnds, made, Find.report?]

variable {Sink : Type} [ReportSink Sink]

/-- A fresh lexer finds the tokens of a cutting, and the end of input. -/
theorem tokens_run_of_cutting {text : List Char} {pieces : List Piece}
    (cutting : Cutting text pieces) (sink : Sink) :
    (Lexer.ofText text sink).run.tokens.toList =
      (finds [] pieces).filterMap Find.token? ++ [.endOfInput (lineAfter text)] := by
  rw [eq_segments_of_cutting cutting, filterMap_token?_finds, Lexer.tokens_run rfl]
  rfl

/-- A fresh lexer makes the reports of a cutting. -/
theorem sink_run_of_cutting {text : List Char} {pieces : List Piece}
    (cutting : Cutting text pieces) (sink : Sink) :
    (Lexer.ofText text sink).run.sink =
      ReportSink.reportAll sink ((finds [] pieces).filterMap Find.report?) := by
  rw [eq_segments_of_cutting cutting, filterMap_report?_finds, Lexer.sink_run rfl]
  rfl

theorem complaints_run_of_cutting {text : List Char} {pieces : List Piece}
    (cutting : Cutting text pieces) (sink : Sink) :
    (Lexer.ofText text sink).run.complaints =
      ((finds [] pieces).filterMap Find.report?).length := by
  rw [eq_segments_of_cutting cutting, filterMap_report?_finds, Lexer.complaints_run rfl]
  exact Nat.zero_add _

/-- **A text is read by longest match.**  It has exactly one cutting into non-empty
pieces, and a fresh lexer finds what these pieces yield, in their order, and the end
of input. -/
theorem run_eq_cutting (sink : Sink) (text : List Char) :
    ∃ pieces, Cutting text pieces ∧ (∀ other, Cutting text other → other = pieces) ∧
      (∀ piece ∈ pieces, piece.text ≠ []) ∧ pieces.flatMap Piece.text = text ∧
      (Lexer.ofText text sink).run.tokens.toList =
        (finds [] pieces).filterMap Find.token? ++ [.endOfInput (lineAfter text)] ∧
      (Lexer.ofText text sink).run.sink =
        ReportSink.reportAll sink ((finds [] pieces).filterMap Find.report?) ∧
      (Lexer.ofText text sink).run.complaints =
        ((finds [] pieces).filterMap Find.report?).length := by
  have cutting := cutting_segments text
  exact ⟨_, cutting, fun other => eq_segments_of_cutting, text_ne_nil_of_cutting cutting,
    flatMap_text_of_cutting cutting, tokens_run_of_cutting cutting sink,
    sink_run_of_cutting cutting sink, complaints_run_of_cutting cutting sink⟩

end LoxLexer
