/-
# LoxLexer.Proofs.Dump -- what a dump tells of the tokens

A dump has one entry for each token, and each entry ends its line.  A string's value stands
in its entry as it is, line ends too, and nothing else in an entry can hold one
(`count_newline_entry`).  So a dump has one line for each token exactly if no string of the
text goes over a line end, and else as many lines more as there are line ends in strings.

An entry tells its token: the kind is what stands between the first angle bracket and the
first colon or angle bracket behind it, and the value is what stands between the colon and
the last angle bracket (`shown_of_entry`).  Values may hold both characters, as only the
ends of an entry count.  But entries do not tell where they end, once values hold line ends:
one string can look like two.  The main statement is `dump_lines`.
-/
import LoxLexer.Proofs.JsonRoundTrip
import LoxLexer.Proofs.Respelling

namespace LoxLexer

set_option autoImplicit false

open Numeral (Binary64 Layout)
open Text (FitsLine Shown)

/-! ## Lines -/

/-- Cuts a text after each line end. -/
def cutLines : List Char → List (List Char)
  | [] => []
  | c :: rest =>
      if c = '\n' then [c] :: cutLines rest
      else
        match cutLines rest with
        | [] => [[c]]
        | line :: lines => (c :: line) :: lines

/-- A line ends at the first line end. -/
theorem cutLines_line {body : List Char} (within : '\n' ∉ body) (rest : List Char) :
    cutLines (body ++ '\n' :: rest) = (body ++ ['\n']) :: cutLines rest := by
  induction body with
  | nil => simp [cutLines]
  | cons c body ih =>
      rw [List.mem_cons, not_or] at within
      have other : c ≠ '\n' := fun same => within.1 same.symm
      simp [cutLines, other, ih within.2]

/-- A text that ends a line has a line for each line end in it. -/
theorem length_cutLines_append (body rest : List Char) :
    (cutLines (body ++ '\n' :: rest)).length = body.count '\n' + 1 + (cutLines rest).length := by
  induction body with
  | nil => simp [cutLines, Nat.add_comm]
  | cons c body ih =>
      rw [List.cons_append, cutLines]
      by_cases newline : c = '\n'
      · rw [if_pos newline, List.length_cons, ih, newline, List.count_cons_self]
        omega
      · rw [if_neg newline, List.count_cons_of_ne newline]
        cases lines : cutLines (body ++ '\n' :: rest) with
        | nil =>
            rw [lines, List.length_nil] at ih
            omega
        | cons line others =>
            rw [lines] at ih
            exact ih

/-! ## The parts of an entry -/

/-- What stands in front of a token's text: its line, right-aligned, and a space. -/
def margin (line : Int) : List Char := (Scan.alignRight 4 (toString line) ++ " ").toList

namespace Token

/-- What stands in a token's text behind its kind. -/
def detail (token : Token) : List Char := token.literal.text.toList ++ token.nameText.toList

theorem toList_text (token : Token) :
    token.text.toList = '<' :: (token.kind.name.toList ++ (token.detail ++ ['>'])) := by
  simp [text, detail, String.toList_append]

/-- A detail starts with a colon, if there is one. -/
theorem head_detail (token : Token) : ∀ c ∈ token.detail.head?, c = ':' := by
  unfold detail nameText
  cases token.literal <;> split <;> simp [Literal.text]

end Token

namespace Scan

theorem toList_entry (token : Token) :
    (entry token).toList = margin token.line ++ token.text.toList ++ ['\n'] := by
  simp [entry, margin, String.toList_append]

end Scan

/-! ## Names and numbers in entries -/

/-- No name of a kind has a character in it that ends it. -/
theorem Kind.name_within (kind : Kind) :
    ∀ c ∈ kind.name.toList, (c ≠ ':' && c ≠ '>' && c ≠ '\n') = true := by
  have all : ∀ kind ∈ Kind.all,
      kind.name.toList.all (fun c => c ≠ ':' && c ≠ '>' && c ≠ '\n') = true := by
    decide +kernel
  exact List.all_eq_true.mp (all kind kind.mem_all)

theorem Kind.name_inj {kind other : Kind} (same : kind.name = other.name) : kind = other := by
  have found := Kind.ofName?_name kind
  rw [same, Kind.ofName?_name] at found
  exact (Option.some.inj found).symm

/-- A line number is written as it is in JSON. -/
theorem toList_toString_int (line : Int) : (toString line).toList = Json.printInteger line := by
  rw [Int.toString_eq_repr]
  cases line with
  | ofNat number => exact Nat.toList_repr
  | negSucc number =>
      show ("-" ++ Nat.repr (number + 1)).toList = _
      rw [String.toList_append, Nat.toList_repr]
      rfl

theorem toString_int_inj {line other : Int} (same : toString line = toString other) :
    line = other := by
  have read := Json.exponent?_printInteger line
  rw [← toList_toString_int, same, toList_toString_int, Json.exponent?_printInteger] at read
  exact (Option.some.inj read).symm

theorem mem_toString_int {line : Int} :
    ∀ c ∈ (toString line).toList, c.isDigit = true ∨ c = '-' := by
  intro c member
  rw [toList_toString_int] at member
  cases line with
  | ofNat number => exact .inl (Numeral.isDigit_of_mem_toDigits c member)
  | negSucc number =>
      rcases List.mem_cons.mp member with minus | digit
      · exact .inr minus
      · exact .inl (Numeral.isDigit_of_mem_toDigits c digit)

theorem margin_eq (line : Int) :
    ∃ count, margin line = List.replicate count ' ' ++ (toString line).toList ++ [' '] :=
  ⟨4 - (toString line).length, by simp [margin, Scan.alignRight, String.toList_append]⟩

theorem mem_margin {line : Int} {c : Char} (member : c ∈ margin line) :
    c.isDigit = true ∨ c ∈ [' ', '-'] := by
  obtain ⟨count, written⟩ := margin_eq line
  rw [written, List.mem_append, List.mem_append] at member
  rcases member with (space | number) | space
  · rw [List.eq_of_mem_replicate space]
    exact .inr List.mem_cons_self
  · rcases mem_toString_int c number with digit | rfl
    · exact .inl digit
    · exact .inr (List.mem_cons_of_mem _ List.mem_cons_self)
  · rw [List.mem_singleton.mp space]
    exact .inr List.mem_cons_self

/-- No margin has an angle bracket or a line end in it. -/
theorem margin_within {line : Int} : ∀ c ∈ margin line, (c ≠ '<' && c ≠ '\n') = true := by
  intro c member
  rcases mem_margin member with digit | listed
  · rw [Bool.and_eq_true, decide_eq_true_eq, decide_eq_true_eq]
    constructor <;> rintro rfl <;> cases digit
  · have all : [' ', '-'].all (fun c => c ≠ '<' && c ≠ '\n') = true := rfl
    exact List.all_eq_true.mp all c listed

/-- The line can be read off a margin, as its spaces are no part of the number. -/
theorem margin_inj {line other : Int} (same : margin line = margin other) : line = other := by
  have kept (number : Int) : (margin number).filter (· ≠ ' ') = (toString number).toList := by
    have spaceless : (toString number).toList.filter (· ≠ ' ') = (toString number).toList := by
      rw [List.filter_eq_self]
      intro c member
      rw [decide_eq_true_eq]
      rintro rfl
      rcases mem_toString_int ' ' member with digit | minus
      · cases digit
      · cases minus
    obtain ⟨count, written⟩ := margin_eq number
    rw [written, List.filter_append, List.filter_append, spaceless]
    simp
  have texts := kept line
  rw [same, kept other, String.toList_inj] at texts
  exact (toString_int_inj texts).symm

theorem legible_numbers : Literal.numbers.Legible where
  infinity negative := by cases negative <;> decide +kernel
  notANumber := by decide +kernel

/-- The value of a token can be read off its text, if the kind is known. -/
theorem Kind.value_inj (kind : Kind) {lexeme other : List Char}
    (same : (kind.value lexeme).text = (kind.value other).text) :
    kind.value lexeme = kind.value other := by
  unfold value at same ⊢
  split
  · simp only [Literal.text, String.append_right_inj] at same
    rw [same]
  · simp only [Literal.text, String.append_right_inj, String.ofList_inj] at same
    have read := Layout.read?_write legible_numbers (Binary64.ofNumeral lexeme)
    rw [same, Layout.read?_write legible_numbers] at read
    rw [Option.some.inj read]
  · rfl

/-! ## What an entry tells -/

/-- Where two texts stop at the same characters, they are cut at the same place. -/
theorem append_inj_of_noMore {keep : Char → Bool} {first second other more : List Char}
    (kept : ∀ c ∈ first, keep c = true) (keptOther : ∀ c ∈ other, keep c = true)
    (stops : NoMore keep second) (stopsMore : NoMore keep more)
    (same : first ++ second = other ++ more) : first = other ∧ second = more := by
  have taken := takeWhile_of_noMore kept stops
  have left := dropWhile_of_noMore kept stops
  rw [same, takeWhile_of_noMore keptOther stopsMore] at taken
  rw [same, dropWhile_of_noMore keptOther stopsMore] at left
  exact ⟨taken.symm, left.symm⟩

/-- What a dump shows of a token: its kind, line and value, and the name that an
identifier is. -/
def Token.shown (token : Token) : Kind × Int × Literal × String :=
  (token.kind, token.line, token.literal,
    if token.kind = .identifier then token.lexeme else "")

/-- A token whose value is what its kind and its lexeme denote. -/
def Token.Denotes (token : Token) : Prop :=
  token.literal = token.kind.value token.lexeme.toList

/-- Tokens of one kind that have one detail are shown alike, but for their lines. -/
theorem shown_of_detail {token other : Token} (denotes : token.Denotes)
    (denotes' : other.Denotes) (kind : token.kind = other.kind) (line : token.line = other.line)
    (same : token.detail = other.detail) : token.shown = other.shown := by
  unfold Token.Denotes at denotes denotes'
  unfold Token.detail Token.nameText at same
  unfold Token.shown
  rw [kind] at denotes same ⊢
  rw [denotes, denotes'] at same ⊢
  by_cases identifier : other.kind = .identifier
  · have none (lexeme : List Char) : other.kind.value lexeme = .none :=
      Kind.value_eq_none (by simp [identifier]) (by simp [identifier]) lexeme
    rw [if_pos identifier, if_pos identifier, none, none, String.toList_append,
      String.toList_append, List.append_cancel_left_eq, List.append_cancel_left_eq,
      String.toList_inj] at same
    rw [none, none, line, same]
  · rw [if_neg identifier, if_neg identifier, List.append_cancel_right_eq,
      String.toList_inj] at same
    rw [if_neg identifier, if_neg identifier, Kind.value_inj other.kind same, line]

/-- **An entry tells its token.** -/
theorem shown_of_entry {token other : Token} (denotes : token.Denotes) (denotes' : other.Denotes)
    (same : Scan.entry token = Scan.entry other) : token.shown = other.shown := by
  have texts := congrArg String.toList same
  rw [Scan.toList_entry, Scan.toList_entry, List.append_cancel_right_eq, Token.toList_text,
    Token.toList_text] at texts
  have bracket (rest : List Char) : NoMore (fun c => c ≠ '<' && c ≠ '\n') ('<' :: rest) :=
    noMore_cons.mpr rfl
  have ends (token : Token) :
      NoMore (fun c => c ≠ ':' && c ≠ '>' && c ≠ '\n') (token.detail ++ ['>']) := by
    intro c head
    cases detail : token.detail with
    | nil =>
        rw [detail] at head
        cases head
        rfl
    | cons d rest =>
        rw [detail] at head
        cases head
        rw [token.head_detail c (by rw [detail]; rfl)]
        rfl
  obtain ⟨margins, behind⟩ :=
    append_inj_of_noMore margin_within margin_within (bracket _) (bracket _) texts
  obtain ⟨names, details⟩ := append_inj_of_noMore (Kind.name_within token.kind)
    (Kind.name_within other.kind) (ends token) (ends other) (List.cons.inj behind).2
  exact shown_of_detail denotes denotes' (Kind.name_inj (String.toList_inj.mp names))
    (margin_inj margins) (List.append_cancel_right details)

/-! ## Line ends in entries -/

/-- The characters of a string, and nothing of the other values. -/
def Literal.content : Literal → List Char
  | .string text => text.toList
  | _ => []

/-- The lexeme of an identifier is a word. -/
theorem Token.Legible.inWord_lexeme {token : Token} (legible : token.Legible)
    (identifier : token.kind = .identifier) : ∀ c ∈ token.lexeme.toList, inWord c = true := by
  obtain ⟨after, longest⟩ := legible
  rcases token_of_longest longest rfl with
    ⟨-, -, word⟩ | ⟨other, -⟩ | ⟨other, -⟩ | ⟨closed, -⟩
  · exact word
  · cases identifier.symm.trans other
  · cases identifier.symm.trans other
  · exact absurd (identifier ▸ List.mem_cons_self) closed

theorem newline_notMem_number (value : Binary64) : '\n' ∉ Literal.numbers.write value := by
  cases value with
  | nan => decide +kernel
  | infinite negative => cases negative <;> decide +kernel
  | finite negative rank =>
      intro member
      cases Layout.isNumeralPart_of_mem_write Literal.numbers negative rank '\n' member

theorem Literal.count_newline_text (literal : Literal) :
    literal.text.toList.count '\n' = literal.content.count '\n' := by
  cases literal with
  | none => rfl
  | string text => simp [Literal.text, content]
  | number value =>
      have number := List.count_eq_zero.mpr (newline_notMem_number value)
      simp [Literal.text, content, number]

theorem Token.IsFound.denotes {token : Token} (found : token.IsFound) : token.Denotes := by
  rcases found with legible | ⟨line, rfl⟩
  · exact legible.literal_eq
  · rfl

theorem Token.IsFound.newline_notMem_nameText {token : Token} (found : token.IsFound) :
    '\n' ∉ token.nameText.toList := by
  unfold nameText
  split
  · rename_i identifier
    rcases found with legible | ⟨line, rfl⟩
    · rw [String.toList_append, List.mem_append]
      rintro (colon | inside)
      · cases List.mem_singleton.mp colon
      · cases legible.inWord_lexeme identifier '\n' inside
    · cases identifier
  · exact List.not_mem_nil

/-- **Only a string has line ends in its entry**, those of its value. -/
theorem Token.IsFound.count_newline {token : Token} (found : token.IsFound) :
    (margin token.line ++ token.text.toList).count '\n' =
      token.literal.content.count '\n' := by
  have space : '\n' ∉ margin token.line := by
    intro member
    cases margin_within '\n' member
  have kind : '\n' ∉ token.kind.name.toList := by
    intro member
    cases token.kind.name_within '\n' member
  rw [List.count_append, List.count_eq_zero.mpr space, toList_text, detail]
  simp only [List.count_cons, List.count_append, List.count_eq_zero.mpr kind,
    List.count_eq_zero.mpr found.newline_notMem_nameText, Literal.count_newline_text]
  simp

/-! ## Dumps -/

/-- Entries under each other have the lines that each has. -/
theorem length_cutLines_entries {tokens : List Token} (found : ∀ token ∈ tokens, token.IsFound) :
    (cutLines (tokens.flatMap fun token => (Scan.entry token).toList)).length =
      tokens.length + (tokens.flatMap fun token => token.literal.content).count '\n' := by
  induction tokens with
  | nil => rfl
  | cons token tokens ih =>
      rw [List.forall_mem_cons] at found
      rw [List.flatMap_cons, Scan.toList_entry, List.append_assoc, List.singleton_append,
        length_cutLines_append, found.1.count_newline, ih found.2, List.flatMap_cons,
        List.count_append, List.length_cons]
      omega

/-- Entries without line ends in strings are the lines. -/
theorem cutLines_entries {tokens : List Token} (found : ∀ token ∈ tokens, token.IsFound)
    (single : ∀ token ∈ tokens, '\n' ∉ token.literal.content) :
    cutLines (tokens.flatMap fun token => (Scan.entry token).toList) =
      tokens.map fun token => (Scan.entry token).toList := by
  induction tokens with
  | nil => rfl
  | cons token tokens ih =>
      rw [List.forall_mem_cons] at found single
      have within : '\n' ∉ margin token.line ++ token.text.toList := by
        rw [← List.count_eq_zero, found.1.count_newline]
        exact List.count_eq_zero.mpr single.1
      rw [List.flatMap_cons, List.map_cons, Scan.toList_entry, List.append_assoc,
        ← ih found.2 single.2]
      exact cutLines_line within _

/-- Tokens with the same entries are shown alike. -/
theorem shown_of_entries {tokens others : List Token} (found : ∀ token ∈ tokens, token.IsFound)
    (foundOthers : ∀ token ∈ others, token.IsFound)
    (same : (tokens.map fun token => (Scan.entry token).toList) =
      others.map fun token => (Scan.entry token).toList) :
    tokens.map Token.shown = others.map Token.shown := by
  induction tokens generalizing others with
  | nil =>
      cases others with
      | nil => rfl
      | cons other others => cases same
  | cons token tokens ih =>
      cases others with
      | nil => cases same
      | cons other others =>
          rw [List.forall_mem_cons] at found foundOthers
          obtain ⟨first, rest⟩ := List.cons.inj same
          have shown := shown_of_entry found.1.denotes foundOthers.1.denotes
            (String.toList_inj.mp first)
          rw [List.map_cons, List.map_cons, shown, ih found.2 foundOthers.2 rest]

namespace Scan

/-- No string of a scan goes over a line end. -/
def KeepsLines (scan : Scan) : Prop := ∀ token ∈ scan.tokens, '\n' ∉ token.literal.content

theorem toList_dump (scan : Scan) :
    scan.dump.toList = scan.tokens.flatMap fun token => (entry token).toList := by
  rw [dump, String.toList_join, List.flatMap_map]

/-- **What the lines of a dump are.**  A dump has one line for each token, and one more for
each line end in a string.  Its lines are the entries of the tokens, in order, exactly if
no string goes over a line end; and two texts of which both are such and whose dumps are
equal have tokens of the same kinds, lines and values, and the same names. -/
theorem dump_lines (filename text : String) :
    let scan := ofText filename text
    (cutLines scan.dump.toList).length =
      scan.tokens.length + (scan.tokens.flatMap fun token => token.literal.content).count '\n' ∧
    ((cutLines scan.dump.toList = scan.tokens.map fun token => (entry token).toList) ↔
      scan.KeepsLines) ∧
    ∀ otherName other : String,
      let scan' := ofText otherName other
      scan.KeepsLines → scan'.KeepsLines → scan'.dump = scan.dump →
        scan'.tokens.map Token.shown = scan.tokens.map Token.shown := by
  intro scan
  have found : ∀ token ∈ scan.tokens, token.IsFound :=
    fun token => isFound_of_mem_run Collector.empty
  have length := length_cutLines_entries found
  rw [← toList_dump] at length
  refine ⟨length, ⟨?_, ?_⟩, ?_⟩
  · intro entries token member inside
    rw [entries, List.length_map] at length
    have none : (scan.tokens.flatMap fun token => token.literal.content).count '\n' = 0 := by
      omega
    exact List.count_eq_zero.mp none (List.mem_flatMap.mpr ⟨token, member, inside⟩)
  · intro single
    rw [toList_dump]
    exact cutLines_entries found single
  · intro otherName other scan' single single' same
    have found' : ∀ token ∈ scan'.tokens, token.IsFound :=
      fun token => isFound_of_mem_run Collector.empty
    apply shown_of_entries found' found
    rw [← cutLines_entries found' single', ← cutLines_entries found single, ← toList_dump,
      ← toList_dump, same]

/-- A string over two lines has two lines in its dump, and a string can look like two. -/
theorem not_dump_lines_of_line_end :
    let scan := ofText unnamed "\"a\nb\""
    let one := ofText unnamed "\"x>\n   2 <STRING:y\""
    let two := ofText unnamed "\n\"x\" \"y\""
    (cutLines scan.dump.toList).length ≠ scan.tokens.length ∧
      one.dump = two.dump ∧ one.tokens.map Token.shown ≠ two.tokens.map Token.shown := by
  decide +kernel

end Scan

end LoxLexer
