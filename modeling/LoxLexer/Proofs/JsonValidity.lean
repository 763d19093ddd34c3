/-
# LoxLexer.Proofs.JsonValidity -- which scans are printed as JSON

A printed value is JSON exactly if its doubles are finite (`wellFormed_iff_finite`).  That
the others are not is a statement on all derivations there might be, and it goes through
the marks that a reader cuts a text into: whatever the grammar derives is cut into words that
are names or numbers (`Derives.cutsPermitted`), a printed value is cut into its own words,
and the words for infinities and for what is no number are neither.

Of the tokens of a text only a number can have such a literal, and it has it from half a
step above the greatest double on.  So the scan of a text is printed as JSON exactly if no
number in the text is so large: `Scan.wellFormed_print_iff`.
-/
import LoxLexer.Command.Run
import LoxLexer.Proofs.JsonGrammar
import LoxLexer.Proofs.JsonRoundTrip
import LoxLexer.Proofs.Respelling

namespace LoxLexer

set_option autoImplicit false

open Numeral (Binary64 Decimal Layout)

namespace Json

/-! ## What texts of the grammar are cut into -/

/-- Whether the grammar has a mark: its words are names and numbers. -/
def Mark.Permitted : Mark → Prop
  | .word text => text ∈ names ∨ IsNumber text
  | _ => True

/-- A text that is cut, if at all, into marks that the grammar has.  Not every text of the
grammar is cut: a string in it may have half of a character alone. -/
def CutsPermitted (text : List Char) : Prop :=
  ∀ done rest all, NoMore continuesWord rest → marksFrom .between done (text ++ rest) = some all →
    ∃ marks, (∀ mark ∈ marks, mark.Permitted) ∧
      marksFrom .between (marks ++ done) rest = some all

section Sequences

variable {first second : List Char} {marks : List Mark}

theorem Cuts.permitted (cuts : Cuts first marks) (all : ∀ mark ∈ marks, mark.Permitted) :
    CutsPermitted first := by
  intro done rest whole stops read
  rw [cuts done rest stops] at read
  exact ⟨marks.reverse, fun mark member => all mark (List.mem_reverse.mp member), read⟩

theorem CutsPermitted.append (one : CutsPermitted first) (other : CutsPermitted second)
    (apart : NoMore continuesWord second) : CutsPermitted (first ++ second) := by
  intro done rest all stops read
  have stopsFirst : NoMore continuesWord (second ++ rest) := by
    cases second with
    | nil => exact stops
    | cons c second => exact fun d same => apart d same
  rw [List.append_assoc] at read
  obtain ⟨marks, permitted, later⟩ := one done _ all stopsFirst read
  obtain ⟨more, permittedMore, last⟩ := other _ rest all stops later
  rw [← List.append_assoc] at last
  exact ⟨more ++ marks, List.forall_mem_append.mpr ⟨permittedMore, permitted⟩, last⟩

/-- Behind a closed text anything may stand. -/
theorem CutsPermitted.behind (other : CutsPermitted second) (closed : Closed first marks)
    (all : ∀ mark ∈ marks, mark.Permitted) : CutsPermitted (first ++ second) := by
  intro done rest whole stops read
  rw [List.append_assoc, closed] at read
  obtain ⟨more, permitted, last⟩ := other _ rest whole stops read
  rw [← List.append_assoc] at last
  refine ⟨more ++ marks.reverse, List.forall_mem_append.mpr ⟨permitted, ?_⟩, last⟩
  exact fun mark member => all mark (List.mem_reverse.mp member)

/-- No word goes on with white space. -/
theorem IsBlank.noMore (blank : IsBlank first) : NoMore continuesWord first := by
  intro c head
  have ends : [' ', '\t', '\n', '\r'].all (!continuesWord ·) = true := rfl
  have stopped := List.all_eq_true.mp ends c (blank c (List.mem_of_mem_head? head))
  rwa [Bool.not_eq_true'] at stopped

theorem IsBlank.noMore_append (blank : IsBlank first) (stops : NoMore continuesWord second) :
    NoMore continuesWord (first ++ second) := by
  cases first with
  | nil => exact stops
  | cons c first => exact fun d head => blank.noMore d head

end Sequences

theorem hexValue?_of_isHexDigit {c : Char} (digit : isHexDigit c = true) :
    ∃ value, hexValue? c = some value := by
  unfold hexValue?
  simp only [isHexDigit, Bool.or_eq_true, Bool.and_eq_true, decide_eq_true_eq] at digit
  split
  · exact ⟨_, rfl⟩
  split
  · exact ⟨_, rfl⟩
  · simp_all

/-- The digits of an escape by number are read as one unit. -/
theorem marksFrom_hexDigits {digits : List Char} (all : ∀ c ∈ digits, isHexDigit c = true)
    (units : List Nat) :
    ∀ missing value, digits.length = missing + 1 → ∃ unit, ∀ done rest,
      marksFrom (.number units (missing + 1) value) done (digits ++ rest) =
        marksFrom (.string (unit :: units)) done rest := by
  induction digits with
  | nil =>
      intro missing value short
      cases short
  | cons c digits ih =>
      intro missing value length
      rw [List.forall_mem_cons] at all
      obtain ⟨digit, read⟩ := hexValue?_of_isHexDigit all.1
      cases missing with
      | zero =>
          have last : digits = [] := List.length_eq_zero_iff.mp (Nat.succ.inj length)
          refine ⟨value * 16 + digit, fun done rest => ?_⟩
          simp [marksFrom, step, read, last]
      | succ missing =>
          obtain ⟨unit, later⟩ := ih all.2 missing (value * 16 + digit) (Nat.succ.inj length)
          refine ⟨unit, fun done rest => ?_⟩
          rw [← later]
          simp [marksFrom, step, read]

/-- A character of a string is read as units. -/
theorem marksFrom_character {text : List Char} (isCharacter : IsCharacter text)
    (units : List Nat) :
    ∃ more, ∀ done rest, marksFrom (.string units) done (text ++ rest) =
      marksFrom (.string more) done rest := by
  cases isCharacter with
  | @plain c _ notQuote notBackslash =>
      refine ⟨c.toNat :: units, fun done rest => ?_⟩
      simp [marksFrom, step, notQuote, notBackslash]
  | @letter c listed =>
      have letters : ['"', '\\', '/', 'b', 'f', 'n', 'r', 't'].all
          (fun c => c ≠ 'u' && (letterUnit? c).isSome) = true := rfl
      have letter := List.all_eq_true.mp letters c listed
      rw [Bool.and_eq_true, decide_eq_true_eq] at letter
      obtain ⟨notNumber, isSome⟩ := letter
      obtain ⟨unit, found⟩ := Option.isSome_iff_exists.mp isSome
      refine ⟨unit :: units, fun done rest => ?_⟩
      simp [marksFrom, step, notNumber, found]
  | @number digits four all =>
      obtain ⟨unit, read⟩ := marksFrom_hexDigits all units 3 0 four
      exact ⟨unit :: units, read⟩

theorem marksFrom_characters {characters : List (List Char)}
    (all : ∀ text ∈ characters, IsCharacter text) (units : List Nat) :
    ∃ more, ∀ done rest, marksFrom (.string units) done (characters.flatten ++ rest) =
      marksFrom (.string more) done rest := by
  induction characters generalizing units with
  | nil => exact ⟨units, fun done rest => rfl⟩
  | cons text characters ih =>
      rw [List.forall_mem_cons] at all
      obtain ⟨more, first⟩ := marksFrom_character all.1 units
      obtain ⟨most, later⟩ := ih all.2 more
      refine ⟨most, fun done rest => ?_⟩
      rw [List.flatten_cons, List.append_assoc, first, later]

/-- A string of the grammar is one mark, if its units are a text. -/
theorem IsString.cutsPermitted {text : List Char} (isString : IsString text) :
    CutsPermitted text := by
  obtain @⟨characters, all⟩ := isString
  obtain ⟨units, inside⟩ := marksFrom_characters all []
  intro done rest whole stops read
  rw [List.cons_append, List.append_assoc] at read
  change marksFrom (.string []) done (characters.flatten ++ '"' :: rest) = _ at read
  rw [inside] at read
  change ((Text.Utf16.decode units.reverse).map _).bind _ = _ at read
  cases decoded : Text.Utf16.decode units.reverse with
  | none =>
      rw [decoded] at read
      cases read
  | some text =>
      rw [decoded] at read
      exact ⟨[.string (String.ofList text)], List.forall_mem_singleton.mpr trivial, read⟩

/-- The characters of numbers, digits apart. -/
def numberMarks : List Char := ['.', 'e', 'E', '+', '-']

theorem mem_numberMarks {texts : List (List Char)}
    (known : (texts.all fun text => text.all (· ∈ numberMarks)) = true) {text : List Char}
    (listed : text ∈ texts) : ∀ c ∈ text, c ∈ numberMarks := by
  intro c member
  exact of_decide_eq_true (List.all_eq_true.mp (List.all_eq_true.mp known text listed) c member)

theorem IsFraction.mem {text : List Char} (isFraction : IsFraction text) :
    ∀ c ∈ text, c.isDigit = true ∨ c ∈ numberMarks := by
  cases isFraction with
  | none => exact List.forall_mem_nil _
  | point isDigits =>
      rw [List.forall_mem_cons]
      exact ⟨.inr (by decide), fun c member => .inl (isDigits.all c member)⟩

theorem IsExponent.mem {text : List Char} (isExponent : IsExponent text) :
    ∀ c ∈ text, c.isDigit = true ∨ c ∈ numberMarks := by
  cases isExponent with
  | none => exact List.forall_mem_nil _
  | @power mark sign digits marked signed isDigits =>
      have marks : ['e', 'E'].all (· ∈ numberMarks) = true := rfl
      rw [List.forall_mem_cons, List.forall_mem_append]
      refine ⟨.inr (of_decide_eq_true (List.all_eq_true.mp marks mark marked)), ?_, ?_⟩
      · exact fun c member => .inr (mem_numberMarks rfl signed c member)
      · exact fun c member => .inl (isDigits.all c member)

theorem IsNumber.mem {text : List Char} (isNumber : IsNumber text) :
    ∀ c ∈ text, c.isDigit = true ∨ c ∈ numberMarks := by
  obtain @⟨minus, whole, fraction, exponent, signed, isWhole, isFraction, isExponent⟩ := isNumber
  simp only [List.forall_mem_append]
  refine ⟨⟨⟨?_, ?_⟩, isFraction.mem⟩, isExponent.mem⟩
  · exact fun c member => .inr (mem_numberMarks rfl signed c member)
  · exact fun c member => .inl (isWhole.isDigits.all c member)

/-- A number is one word. -/
theorem IsNumber.isWord {text : List Char} (isNumber : IsNumber text) : IsWord text := by
  constructor
  · obtain ⟨-, isWhole, -, -⟩ := isNumber
    have some := isWhole.isDigits.some
    simp [some]
  · rw [List.all_eq_true]
    intro c member
    rcases isNumber.mem c member with digit | marked
    · exact continuesWord_of_isNumeralPart (Layout.isNumeralPart_of_isDigit digit)
    · have all : numberMarks.all continuesWord = true := rfl
      exact List.all_eq_true.mp all c marked

/-- Between two commas a word ends. -/
theorem cutsPermitted_intercalate {items : List (List Char)}
    (all : ∀ item ∈ items, CutsPermitted item) : CutsPermitted ([','].intercalate items) := by
  induction items with
  | nil => exact closed_nil.cuts.permitted (List.forall_mem_nil _)
  | cons item items ih =>
      rw [List.forall_mem_cons] at all
      cases items with
      | nil =>
          rw [List.intercalate_singleton]
          exact all.1
      | cons next items =>
          rw [List.intercalate_cons_cons, List.append_assoc]
          exact all.1.append ((ih all.2).behind closed_comma (List.forall_mem_nil _))
            (noMore_cons.mpr rfl)

/-- Brackets are marks of their own. -/
theorem CutsPermitted.between {inside : List Char} (cuts : CutsPermitted inside)
    {opening closing : Char} {first last : Mark} (opens : bracket? opening = some first)
    (closes : bracket? closing = some last) (permitted : first.Permitted ∧ last.Permitted) :
    CutsPermitted (opening :: (inside ++ [closing])) := by
  have close : CutsPermitted [closing] :=
    (closed_bracket closes).cuts.permitted (List.forall_mem_singleton.mpr permitted.2)
  have stops : NoMore continuesWord [closing] := by simp [continuesWord, closes]
  exact (cuts.append close stops).behind (closed_bracket opens)
    (List.forall_mem_singleton.mpr permitted.1)

/-- **Whatever the grammar derives is cut into words of the grammar.** -/
theorem Derives.cutsPermitted {part : Part} {text : List Char} (derives : Derives part text) :
    CutsPermitted text := by
  have blank {gap : List Char} (isBlank : IsBlank gap) : CutsPermitted gap :=
    isBlank.closed.cuts.permitted (List.forall_mem_nil _)
  have word {text : List Char} (isWord : IsWord text) (permitted : (Mark.word text).Permitted) :
      CutsPermitted text :=
    (cuts_word isWord).permitted (List.forall_mem_singleton.mpr permitted)
  induction derives with
  | null => exact word (by decide) (.inl (by decide))
  | true => exact word (by decide) (.inl (by decide))
  | false => exact word (by decide) (.inl (by decide))
  | number isNumber => exact word isNumber.isWord (.inr isNumber)
  | string isString => exact isString.cutsPermitted
  | emptyArray isBlank => exact (blank isBlank).between rfl rfl ⟨trivial, trivial⟩
  | array _ _ ih => exact (cutsPermitted_intercalate ih).between rfl rfl ⟨trivial, trivial⟩
  | emptyObject isBlank => exact (blank isBlank).between rfl rfl ⟨trivial, trivial⟩
  | object _ _ ih => exact (cutsPermitted_intercalate ih).between rfl rfl ⟨trivial, trivial⟩
  | @element before value after first _ last ih =>
      rw [List.append_assoc]
      exact (ih.append (blank last) last.noMore).behind first.closed (List.forall_mem_nil _)
  | @member before name after element first isString last _ ih =>
      have colon : Closed [':'] [] := closed_gap (List.all_eq_true.mp rfl)
      have tail := (ih.behind colon (List.forall_mem_nil _)).behind last.closed
        (List.forall_mem_nil _)
      have stops : NoMore continuesWord (after ++ ':' :: element) :=
        last.noMore_append (noMore_cons.mpr rfl)
      have all := (isString.cutsPermitted.append tail stops).behind first.closed
        (List.forall_mem_nil _)
      simpa only [List.append_assoc, List.cons_append, List.nil_append] using all

/-! ## Which values are printed as JSON -/

/-- A double is written as a name or number of the grammar only if it is finite. -/
theorem finite_of_permitted {value : Binary64}
    (permitted : (Mark.word (doubles.write value)).Permitted) : (Json.double value).Finite := by
  have letter {text : List Char} (listed : text ∉ names)
      (other : ∃ c ∈ text, c.isDigit = false ∧ c ∉ numberMarks) :
      ¬ (Mark.word text).Permitted := by
    rintro (named | isNumber)
    · exact listed named
    · obtain ⟨c, member, noDigit, noMark⟩ := other
      rcases isNumber.mem c member with digit | marked
      · exact absurd digit (by simp [noDigit])
      · exact noMark marked
  cases value with
  | nan =>
      refine absurd permitted (letter (by decide +kernel) ⟨'N', ?_⟩)
      decide +kernel
  | infinite negative =>
      refine absurd permitted (letter ?_ ⟨'I', ?_⟩)
      all_goals cases negative <;> decide +kernel
  | finite negative rank => exact .double negative rank

mutual

theorem finite_of_marks : ∀ value, (∀ mark ∈ marks value, mark.Permitted) → value.Finite
  | .null, _ => .null
  | .bool value, _ => .bool value
  | .integer value, _ => .integer value
  | .double _, permitted => finite_of_permitted (List.forall_mem_singleton.mp permitted)
  | .string text, _ => .string text
  | .array items, permitted =>
      .array (finite_of_itemMarks items fun mark member =>
        permitted mark (List.mem_cons_of_mem _ (List.mem_append_left _ member)))
  | .object members, permitted =>
      .object (finite_of_memberMarks members fun mark member =>
        permitted mark (List.mem_cons_of_mem _ (List.mem_append_left _ member)))

theorem finite_of_itemMarks : ∀ items, (∀ mark ∈ itemMarks items, mark.Permitted) →
    ∀ item ∈ items, item.Finite
  | [], _ => List.forall_mem_nil _
  | item :: items, permitted => by
      rw [itemMarks, List.forall_mem_append] at permitted
      exact List.forall_mem_cons.mpr
        ⟨finite_of_marks item permitted.1, finite_of_itemMarks items permitted.2⟩

theorem finite_of_memberMarks : ∀ members : List (String × Json),
    (∀ mark ∈ memberMarks members, mark.Permitted) → ∀ entry ∈ members, entry.2.Finite
  | [], _ => List.forall_mem_nil _
  | (name, value) :: members, permitted => by
      rw [memberMarks, List.forall_mem_cons, List.forall_mem_append] at permitted
      exact List.forall_mem_cons.mpr
        ⟨finite_of_marks value permitted.2.1, finite_of_memberMarks members permitted.2.2⟩

end

/-- **A value is printed as JSON exactly if its doubles are finite**, whatever the indent
and whatever white space comes after it. -/
theorem wellFormed_append_iff_finite (value : Json) (indent : Option Int) {after : String}
    (blank : IsBlank after.toList) : WellFormed (value.print indent ++ after) ↔ value.Finite := by
  rw [WellFormed, String.toList_append, print, String.toList_ofList]
  constructor
  · intro derives
    apply finite_of_marks
    have whole := ((cuts_printAt indent 0 value).append blank.closed.cuts blank.noMore).whole
    rw [List.append_nil, ← List.append_nil (printAt indent 0 value ++ after.toList)] at whole
    obtain ⟨found, permitted, read⟩ :=
      derives.cutsPermitted [] [] _ (noMore_nil _) whole
    rw [List.append_nil] at read
    change some found.reverse = some value.marks at read
    rw [← Option.some.inj read]
    exact fun mark member => permitted mark (List.mem_reverse.mp member)
  · intro finite
    have element := (finite.derives_printAt indent 0).of_value
    exact element.pad_element isBlank_nil blank

theorem wellFormed_iff_finite (value : Json) (indent : Option Int) :
    WellFormed (value.print indent) ↔ value.Finite := by
  have none : IsBlank "".toList := isBlank_nil
  have printed := wellFormed_append_iff_finite value indent none
  rwa [String.append_empty] at printed

end Json

/-! ## Tokens and scans -/

/-- A number whose digits reach half a step above the greatest double. -/
def Token.Overflows (token : Token) : Prop :=
  token.kind = .number ∧
    (Decimal.ofNumeral token.lexeme.toList).AtLeast Binary64.overflow

/-- A numeral denotes a finite double or the positive infinity. -/
theorem finite_ofNumeral_iff (text : List Char) :
    (Json.double (Binary64.ofNumeral text)).Finite ↔
      ¬ (Decimal.ofNumeral text).AtLeast Binary64.overflow := by
  have infinite := Binary64.ofDecimal_eq_infinite_iff false (Decimal.ofNumeral text)
  rw [Binary64.ofNumeral_eq, ← infinite, Binary64.ofDecimal_eq]
  unfold Binary64.ofRank
  split
  · simp only [reduceCtorEq, not_false_eq_true, iff_true]
    exact .double false _
  · simp only [not_true_eq_false, iff_false]
    rintro ⟨⟩

theorem Token.Legible.finite_iff {token : Token} (legible : token.Legible) :
    token.literal.toJson.Finite ↔ ¬ token.Overflows := by
  rw [legible.literal_eq, Overflows]
  by_cases number : token.kind = .number
  · have value := finite_ofNumeral_iff token.lexeme.toList
    simp only [number, true_and]
    exact value
  · simp only [number, false_and, not_false_eq_true, iff_true]
    unfold Kind.value
    split
    · exact .string _
    · rename_i same
      exact absurd same number
    · exact .null

theorem Token.finite_toJson_iff (token : Token) :
    token.toJson.Finite ↔ token.literal.toJson.Finite := by
  constructor
  · rintro ⟨⟩
    rename_i all
    exact all ("literal", token.literal.toJson) (by simp)
  · intro finite
    apply Json.Finite.object
    simp only [List.forall_mem_cons]
    exact ⟨.string _, .integer _, finite, .string _, List.forall_mem_nil _⟩

theorem finite_tokensJson_iff (tokens : List Token) :
    (tokensJson tokens).Finite ↔ ∀ token ∈ tokens, token.literal.toJson.Finite := by
  constructor
  · rintro ⟨⟩
    rename_i all
    intro token member
    exact token.finite_toJson_iff.mp (all _ (List.mem_map_of_mem member))
  · intro all
    apply Json.Finite.array
    rw [List.forall_mem_map]
    exact fun token member => token.finite_toJson_iff.mpr (all token member)

/-- A diagnostic has no doubles. -/
theorem Diagnostic.finite_toJson (diagnostic : Diagnostic) : diagnostic.toJson.Finite := by
  have line : ∀ entry ∈ diagnostic.lineMember, entry.2.Finite := by
    unfold lineMember
    split
    · exact List.forall_mem_nil _
    · exact List.forall_mem_singleton.mpr (.integer _)
  apply Json.Finite.object
  simp only [List.forall_mem_append, List.forall_mem_cons]
  exact ⟨⟨⟨.string _, .string _, List.forall_mem_nil _⟩, line⟩, .string _, List.forall_mem_nil _⟩

namespace Scan

theorem finite_toJson_iff (scan : Scan) :
    scan.toJson.Finite ↔ (tokensJson scan.tokens).Finite := by
  constructor
  · rintro ⟨⟩
    rename_i all
    exact all ("tokens", tokensJson scan.tokens) (by simp)
  · intro finite
    have diagnostics : (Json.array (scan.diagnostics.map Diagnostic.toJson)).Finite := by
      apply Json.Finite.array
      rw [List.forall_mem_map]
      exact fun diagnostic _ => diagnostic.finite_toJson
    apply Json.Finite.object
    simp only [List.forall_mem_cons]
    exact ⟨diagnostics, .string _, .bool _, finite, List.forall_mem_nil _⟩

/-- Of the tokens of a text only numbers that overflow have a literal without digits. -/
theorem finite_tokensJson_ofText_iff (filename text : String) :
    (tokensJson (ofText filename text).tokens).Finite ↔
      ∀ token ∈ (ofText filename text).tokens, ¬ token.Overflows := by
  have each : ∀ token ∈ (ofText filename text).tokens,
      (token.literal.toJson.Finite ↔ ¬ token.Overflows) := by
    intro token member
    rcases isFound_of_mem_run Collector.empty member with legible | ⟨line, rfl⟩
    · exact legible.finite_iff
    · exact iff_of_true .null (by simp [Token.Overflows, Token.endOfInput])
  rw [finite_tokensJson_iff]
  constructor
  · exact fun all token member => (each token member).mp (all token member)
  · exact fun all token member => (each token member).mpr (all token member)

/-- **A scan is printed as JSON exactly if no number in it overflows**, under any name and
with any indent; so are its tokens alone, and so is what a command that asks for JSON
writes.  A number from half a step above the greatest double on has the literal infinity,
and that is written as a word which is no JSON. -/
theorem wellFormed_print_iff (filename text : String) (indent : Option Int) :
    let scan := ofText filename text
    let safe := ∀ token ∈ scan.tokens, ¬ token.Overflows
    (Json.WellFormed (scan.print indent) ↔ safe) ∧
    (Json.WellFormed (printTokens indent scan.tokens) ↔ safe) ∧
    ∀ invocation : Invocation, invocation.json = true →
      (Json.WellFormed (invocation.rendering scan) ↔ safe) := by
  intro scan safe
  have tokens : (tokensJson scan.tokens).Finite ↔ safe := finite_tokensJson_ofText_iff filename text
  have whole : scan.toJson.Finite ↔ safe := scan.finite_toJson_iff.trans tokens
  refine ⟨(scan.toJson.wellFormed_iff_finite indent).trans whole,
    ((tokensJson scan.tokens).wellFormed_iff_finite indent).trans tokens, ?_⟩
  intro invocation asked
  have newline : Json.IsBlank "\n".toList := List.forall_mem_singleton.mpr (by decide)
  rw [Invocation.rendering, if_pos asked]
  exact (scan.toJson.wellFormed_append_iff_finite Json.standardIndent newline).trans whole

/-- A text of digits is one number. -/
theorem tokens_ofText_digits (filename : String) {digits : List Char}
    (isDigits : Json.IsDigits digits) :
    (ofText filename (String.ofList digits)).tokens =
      [⟨.number, String.ofList digits, .number (Binary64.ofNumeral digits),
        lineAfter digits⟩, .endOfInput (lineAfter digits)] := by
  have number : Longest ⟨digits, .token .number (.number (Binary64.ofNumeral digits))⟩ [] := by
    apply Longest.integer isDigits.some isDigits.all (noMore_nil _)
    rintro d rest ⟨⟩
  have cutting := Cutting.cons number .nil
  rw [List.append_nil] at cutting
  show (Lexer.ofText (String.ofList digits).toList Collector.empty).run.tokens.toList = _
  rw [String.toList_ofList, tokens_run_of_cutting cutting]
  rfl

/-- A one with 309 zeros is a number that overflows. -/
theorem not_wellFormed_print_of_overflow :
    let scan := ofText unnamed (String.ofList ('1' :: List.replicate 309 '0'))
    ¬ Json.WellFormed (scan.print Json.standardIndent) ∧
      ¬ Json.WellFormed (printTokens Json.standardIndent scan.tokens) := by
  intro scan
  have zeros : ∀ c ∈ List.replicate 309 '0', c.isDigit = true := Numeral.isDigit_of_mem_zeros
  have isDigits : Json.IsDigits ('1' :: List.replicate 309 '0') :=
    ⟨List.cons_ne_nil _ _, List.forall_mem_cons.mpr ⟨rfl, zeros⟩⟩
  have found := tokens_ofText_digits unnamed isDigits
  have infinite : ¬ (tokensJson scan.tokens).Finite := by
    rw [finite_tokensJson_iff, found, List.forall_mem_cons]
    rintro ⟨literal, -⟩
    have overflows : (Decimal.ofNumeral ('1' :: List.replicate 309 '0')).AtLeast
        Binary64.overflow := by
      unfold Decimal.AtLeast
      decide +kernel
    exact (finite_ofNumeral_iff _).mp literal overflows
  refine ⟨fun printed => infinite ?_, fun printed => infinite ?_⟩
  · exact scan.finite_toJson_iff.mp ((scan.toJson.wellFormed_iff_finite _).mp printed)
  · exact ((tokensJson scan.tokens).wellFormed_iff_finite _).mp printed

end Scan

end LoxLexer
