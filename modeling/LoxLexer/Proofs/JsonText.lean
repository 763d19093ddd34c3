/-
# LoxLexer.Proofs.JsonText -- what a printed value is cut into

A printed value is cut into marks: an array or object into its brackets and what is between
them, a string into one mark, every other value into one word (`marks`, `cuts_printAt`).
Level and indent do not show in the marks.

Two relations say what a text is cut into, whatever was cut before it.  A text that is
`Closed` is cut so whatever comes after it.  A word is not: it takes in whatever goes on
with it, so it only `Cuts` into its mark where no such character comes next.  White space,
commas, colons, brackets and strings are closed, and in a printed value one of them always
stands between two words.

A printed value is of printable ASCII, and of line ends if there is an indent
(`fits_printAt`).
-/
import LoxLexer.Json.Grammar
import LoxLexer.Json.Reader
import LoxLexer.Proofs.NumeralText

namespace LoxLexer.Json

set_option autoImplicit false

open Numeral (Binary64 Layout)
open Text (hex Shown)
open Text.Utf16 (encode encodeChar)

/-! ## Escapes by number -/

/-- With a zero in front or without, the last digit is the number's last digit. -/
theorem hex_succ {width : Nat} (positive : 0 < width) (number : Nat) :
    hex (width + 1) number = hex width (number / 16) ++ [Nat.digitChar (number % 16)] := by
  unfold hex
  by_cases single : number < 16
  · have upper : number / 16 = 0 := by omega
    have lower : number % 16 = number := by omega
    have zero : List.replicate width '0' = List.replicate (width - 1) '0' ++ ['0'] := by
      rw [← List.replicate_succ', Nat.sub_add_cancel positive]
    rw [upper, lower, Nat.toDigits_of_lt_base single]
    show List.replicate width '0' ++ _ = List.replicate (width - 1) '0' ++ ['0'] ++ _
    rw [zero]
  · have count : width + 1 - ((Nat.toDigits 16 (number / 16)).length + 1) =
        width - (Nat.toDigits 16 (number / 16)).length := by
      omega
    rw [Nat.toDigits_of_base_le (by decide) (by omega)]
    simp only [List.length_append, List.length_singleton, count, List.append_assoc]

@[simp] theorem hexValue?_digitChar {digit : Nat} (small : digit < 16) :
    hexValue? (Nat.digitChar digit) = some digit := by
  have all : ∀ digit < 16, hexValue? (Nat.digitChar digit) = some digit := by decide
  exact all digit small

/-- One digit of an escape that lacks more than one. -/
theorem marksFrom_digit (units : List Nat) (missing value : Nat) (done : List Mark) {digit : Nat}
    (small : digit < 16) (rest : List Char) :
    marksFrom (.number units (missing + 2) value) done (Nat.digitChar digit :: rest) =
      marksFrom (.number units (missing + 1) (value * 16 + digit)) done rest := by
  simp [marksFrom, step, small]

theorem marksFrom_lastDigit (units : List Nat) (value : Nat) (done : List Mark) {digit : Nat}
    (small : digit < 16) (rest : List Char) :
    marksFrom (.number units 1 value) done (Nat.digitChar digit :: rest) =
      marksFrom (.string ((value * 16 + digit) :: units)) done rest := by
  simp [marksFrom, step, small]

/-- Digits that are not the last ones of an escape. -/
theorem marksFrom_digits (units : List Nat) (missing : Nat) (done : List Mark) (width : Nat) :
    ∀ (number : Nat) (rest : List Char), number < Nat.pow 16 (width + 1) →
      marksFrom (.number units (missing + 1 + (width + 1)) 0) done (hex (width + 1) number ++ rest)
        = marksFrom (.number units (missing + 1) number) done rest := by
  induction width generalizing missing with
  | zero =>
      intro number rest small
      have digit : hex 1 number = [Nat.digitChar number] := by
        rw [hex, Nat.toDigits_of_lt_base small]
        rfl
      rw [digit]
      show marksFrom (.number units (missing + 2) 0) done (Nat.digitChar number :: rest) = _
      rw [marksFrom_digit units missing 0 done small, Nat.zero_mul, Nat.zero_add]
  | succ width ih =>
      intro number rest small
      have upper : number / 16 < Nat.pow 16 (width + 1) :=
        Nat.div_lt_of_lt_mul (by rwa [Nat.mul_comm])
      have one_more : missing + 1 + (width + 1 + 1) = missing + 1 + 1 + (width + 1) := by omega
      have whole : number / 16 * 16 + number % 16 = number := by omega
      rw [hex_succ (Nat.succ_pos width), List.append_assoc, one_more, ih _ _ _ upper]
      show marksFrom (.number units (missing + 2) _) done (Nat.digitChar _ :: rest) = _
      rw [marksFrom_digit units missing _ done (Nat.mod_lt number (by decide)), whole]

/-- The escape of a unit is read as the unit. -/
theorem marksFrom_unitEscape (units : List Nat) (done : List Mark) {unit : Nat}
    (small : unit < 0x10000) (rest : List Char) :
    marksFrom (.string units) done (unitEscape unit ++ rest) =
      marksFrom (.string (unit :: units)) done rest := by
  have upper : unit / 16 < Nat.pow 16 3 := by
    show unit / 16 < 0x1000
    omega
  have whole : unit / 16 * 16 + unit % 16 = unit := by omega
  show marksFrom (.number units (0 + 1 + (2 + 1)) 0) done (hex 4 unit ++ rest) = _
  rw [hex_succ (by decide), List.append_assoc, marksFrom_digits units 0 done 2 _ _ upper]
  show marksFrom (.number units 1 _) done (Nat.digitChar _ :: rest) = _
  rw [marksFrom_lastDigit units _ done (Nat.mod_lt unit (by decide)), whole]

/-! ## Strings -/

/-- A character in a string is read as its units. -/
theorem marksFrom_escape (units : List Nat) (done : List Mark) (c : Char) (rest : List Char) :
    marksFrom (.string units) done (escape c ++ rest) =
      marksFrom (.string ((encodeChar c).reverse ++ units)) done rest := by
  unfold escape
  split
  · rename_i same
    subst same
    rfl
  rename_i notQuote
  split
  · rename_i same
    subst same
    rfl
  rename_i notBackslash
  iterate 5
    split
    · rename_i same
      subst same
      rfl
  split
  · rename_i shown
    have small : c.toNat ≤ '~'.toNat := UInt32.le_iff_toNat_le.mp shown.2
    have single : encodeChar c = [c.toNat] :=
      if_pos (Nat.lt_of_le_of_lt small (by decide))
    simp [marksFrom, step, notQuote, notBackslash, single]
  · unfold numericEscape encodeChar
    split
    · rename_i below
      exact marksFrom_unitEscape units done below rest
    · have valid : c.toNat < 0x110000 := by
        have cases : c.toNat < 0xD800 ∨ 0xDFFF < c.toNat ∧ c.toNat < 0x110000 := c.valid
        omega
      rw [List.append_assoc, marksFrom_unitEscape units done (by omega),
        marksFrom_unitEscape _ done (by omega)]
      rfl

theorem marksFrom_escapes (text : List Char) (units : List Nat) (done : List Mark)
    (rest : List Char) :
    marksFrom (.string units) done (text.flatMap escape ++ rest) =
      marksFrom (.string ((encode text).reverse ++ units)) done rest := by
  induction text generalizing units with
  | nil => rfl
  | cons c text ih =>
      have units_cons : encode (c :: text) = encodeChar c ++ encode text := rfl
      rw [List.flatMap_cons, List.append_assoc, marksFrom_escape, ih, units_cons,
        List.reverse_append, List.append_assoc]

/-! ## What texts are cut into -/

/-- A text that is cut into these marks, whatever comes after it. -/
def Closed (text : List Char) (marks : List Mark) : Prop :=
  ∀ done rest, marksFrom .between done (text ++ rest) =
    marksFrom .between (marks.reverse ++ done) rest

/-- A text that is cut into these marks where no word goes on after it. -/
def Cuts (text : List Char) (marks : List Mark) : Prop :=
  ∀ done rest, NoMore continuesWord rest →
    marksFrom .between done (text ++ rest) = marksFrom .between (marks.reverse ++ done) rest

section Sequences

variable {first second : List Char} {marks more : List Mark}

theorem Closed.cuts (closed : Closed first marks) : Cuts first marks :=
  fun done rest _ => closed done rest

theorem Closed.append (closed : Closed first marks) (cuts : Cuts second more) :
    Cuts (first ++ second) (marks ++ more) := by
  intro done rest stops
  rw [List.append_assoc, closed, cuts _ _ stops, List.reverse_append, List.append_assoc]

theorem Cuts.append (cuts : Cuts first marks) (others : Cuts second more)
    (apart : NoMore continuesWord second) : Cuts (first ++ second) (marks ++ more) := by
  intro done rest stops
  have stopsFirst : NoMore continuesWord (second ++ rest) := by
    cases second with
    | nil => exact stops
    | cons c second => exact fun d same => apart d same
  rw [List.append_assoc, cuts _ _ stopsFirst, others _ _ stops, List.reverse_append,
    List.append_assoc]

/-- A whole text. -/
theorem Cuts.whole (cuts : Cuts first marks) : marksFrom .between [] first = some marks := by
  have all := cuts [] [] (noMore_nil _)
  rw [List.append_nil, List.append_nil] at all
  rw [all]
  exact congrArg some marks.reverse_reverse

end Sequences

theorem closed_nil : Closed [] [] := fun _ _ => rfl

theorem closed_gap {text : List Char} (gap : ∀ c ∈ text, isGap c = true) : Closed text [] := by
  induction text with
  | nil => exact closed_nil
  | cons c text ih =>
      intro done rest
      have skipped : start done c = (.between, done) := by
        have kept := gap c List.mem_cons_self
        simp only [isGap, Bool.or_eq_true, decide_eq_true_eq] at kept
        rcases kept with ((((rfl | rfl) | rfl) | rfl) | rfl) | rfl <;> rfl
      show (some (start done c)).bind _ = _
      rw [skipped]
      exact ih (fun d member => gap d (List.mem_cons_of_mem c member)) done rest

theorem closed_comma : Closed [','] [] := closed_gap (List.all_eq_true.mp rfl)

/-- White space keeps marks apart. -/
theorem IsBlank.closed {text : List Char} (blank : IsBlank text) : Closed text [] := by
  apply closed_gap
  intro c member
  have kept : [' ', '\t', '\n', '\r'].all isGap = true := rfl
  exact List.all_eq_true.mp kept c (blank c member)

theorem closed_bracket {c : Char} {mark : Mark} (bracket : bracket? c = some mark) :
    Closed [c] [mark] := by
  intro done rest
  have other : c ≠ '"' := by
    rintro rfl
    cases bracket
  show (some (start done c)).bind _ = _
  rw [start, if_neg other, bracket]
  rfl

/-- **A printed string is cut into the string.** -/
theorem closed_printString (text : String) : Closed (printString text) [.string text] := by
  intro done rest
  show marksFrom (.string []) done ((text.toList.flatMap escape ++ ['"']) ++ rest) = _
  rw [List.append_assoc, marksFrom_escapes, List.append_nil]
  show ((Text.Utf16.decode (encode text.toList).reverse.reverse).map _).bind _ = _
  rw [List.reverse_reverse, Text.Utf16.decode_encode, Option.map_some, String.ofList_toList]
  rfl

/-! ## Words -/

/-- The characters of a word. -/
def IsWord (text : List Char) : Prop := text ≠ [] ∧ text.all continuesWord = true

instance (text : List Char) : Decidable (IsWord text) := inferInstanceAs (Decidable (_ ∧ _))

theorem marksFrom_word (done : List Mark) {more rest : List Char}
    (all : ∀ c ∈ more, continuesWord c = true) (stops : NoMore continuesWord rest) :
    ∀ text, marksFrom (.word text) done (more ++ rest) =
      marksFrom .between (.word (text.reverse ++ more) :: done) rest := by
  induction more with
  | nil =>
      intro text
      rw [List.append_nil]
      cases rest with
      | nil => rfl
      | cons c rest =>
          show (step (.word text) done c).bind _ = _
          rw [step, if_neg (by simpa using stops c rfl)]
          rfl
  | cons c more ih =>
      intro text
      show (step (.word text) done c).bind _ = _
      rw [step, if_pos (all c List.mem_cons_self)]
      show marksFrom (.word (c :: text)) done (more ++ rest) = _
      rw [ih fun d member => all d (List.mem_cons_of_mem c member), List.reverse_cons,
        List.append_assoc]
      rfl

theorem cuts_word {text : List Char} (word : IsWord text) : Cuts text [.word text] := by
  obtain ⟨named, kept⟩ := word
  obtain ⟨c, more, rfl⟩ := List.exists_cons_of_ne_nil named
  have all := List.all_eq_true.mp kept
  intro done rest stops
  have starts : start done c = (.word [c], done) := by
    have continued := all c List.mem_cons_self
    simp only [continuesWord, Bool.not_eq_true', Bool.or_eq_false_iff, decide_eq_false_iff_not,
      Option.isSome_eq_false_iff, Option.isNone_iff_eq_none] at continued
    obtain ⟨⟨notQuote, noBracket⟩, noGap⟩ := continued
    simp [start, notQuote, noBracket, noGap]
  show (some (start done c)).bind _ = _
  rw [starts]
  exact marksFrom_word done (fun d member => all d (List.mem_cons_of_mem c member)) stops [c]

/-- The characters that no word goes on with. -/
def wordEnds : List Char := ['"', '[', ']', '\x7b', '\x7d', ' ', '\n', '\r', '\t', ',', ':']

theorem continuesWord_of_notMem {c : Char} (other : c ∉ wordEnds) : continuesWord c = true := by
  simp only [wordEnds, List.mem_cons, List.not_mem_nil, or_false, not_or] at other
  simp [continuesWord, isGap, bracket?, other]

/-- A decimal is a word. -/
theorem continuesWord_of_isNumeralPart {c : Char} (part : Layout.isNumeralPart c = true) :
    continuesWord c = true := by
  apply continuesWord_of_notMem
  intro member
  have none : wordEnds.any Layout.isNumeralPart = false := rfl
  exact List.any_eq_false.mp none c member part

theorem isWord_integer (value : Int) : IsWord (printInteger value) := by
  have digit {number : Nat} {c : Char} (member : c ∈ Nat.toDigits 10 number) :
      continuesWord c = true :=
    continuesWord_of_isNumeralPart
      (Layout.isNumeralPart_of_isDigit (Numeral.isDigit_of_mem_toDigits c member))
  cases value with
  | ofNat value => exact ⟨Nat.toDigits_ne_nil, List.all_eq_true.mpr fun c member => digit member⟩
  | negSucc value =>
      refine ⟨List.cons_ne_nil _ _, List.all_eq_true.mpr fun c member => ?_⟩
      rcases List.mem_cons.mp member with rfl | inside
      · rfl
      · exact digit inside

theorem isWord_double (value : Binary64) : IsWord (doubles.write value) := by
  cases value with
  | nan => decide +kernel
  | infinite negative => cases negative <;> decide +kernel
  | finite negative rank =>
      obtain ⟨text, written, looks, -⟩ := Layout.write_finite doubles negative rank
      obtain ⟨c, rest, rfl, -⟩ := looks.head
      constructor
      · rw [written]
        exact List.append_ne_nil_of_right_ne_nil _ (List.cons_ne_nil c rest)
      · exact List.all_eq_true.mpr fun d member =>
          continuesWord_of_isNumeralPart (Layout.isNumeralPart_of_mem_write doubles _ _ d member)

/-! ## Values -/

mutual

/-- The marks of a printed value. -/
def marks : Json → List Mark
  | .string text => [.string text]
  | .array items => .openArray :: (itemMarks items ++ [.closeArray])
  | .object members => .openObject :: (memberMarks members ++ [.closeObject])
  | value => [.word (printAt none 0 value)]

/-- The marks of the items of an array. -/
def itemMarks : List Json → List Mark
  | [] => []
  | item :: items => marks item ++ itemMarks items

/-- The marks of the members of an object. -/
def memberMarks : List (String × Json) → List Mark
  | [] => []
  | (name, value) :: members => .string name :: (marks value ++ memberMarks members)

end

theorem isBlank_lineBreak (indent : Option Int) (level : Nat) :
    IsBlank (lineBreak indent level) := by
  intro c member
  cases indent with
  | none => exact absurd member List.not_mem_nil
  | some width =>
      rcases List.mem_cons.mp member with rfl | space
      · decide
      · rw [List.eq_of_mem_replicate space]
        decide

/-- A separator is a comma and white space. -/
theorem separator_eq (indent : Option Int) (level : Nat) :
    ∃ gap, separator indent level = ',' :: gap ∧ IsBlank gap := by
  cases indent with
  | none => exact ⟨[' '], rfl, List.forall_mem_singleton.mpr (by decide)⟩
  | some width => exact ⟨_, rfl, isBlank_lineBreak (some width) level⟩

/-- What stands between two texts cuts nothing, and ends the word before it. -/
theorem cuts_separated {indent : Option Int} {level : Nat} {first : List Char}
    {marks more : List Mark} {texts : List (List Char)} (cuts : Cuts first marks)
    (others : Cuts ((separator indent level).intercalate texts) more) :
    Cuts ((separator indent level).intercalate (first :: texts)) (marks ++ more) := by
  cases texts with
  | nil =>
      have both := cuts.append others (noMore_nil _)
      rw [List.intercalate_singleton]
      rwa [List.intercalate_nil, List.append_nil] at both
  | cons second texts =>
      obtain ⟨gap, written, blank⟩ := separator_eq indent level
      rw [written, List.intercalate_cons_cons, List.append_assoc]
      rw [written] at others
      apply cuts.append
      · exact closed_comma.append (blank.closed.append others)
      · exact noMore_cons.mpr rfl

/-- Brackets with what is between them, on lines of its own or not. -/
theorem cuts_bracketed {indent : Option Int} {level : Nat} {opening closing : Char}
    {first last : Mark} {inside : List Mark} {texts : List (List Char)}
    (opens : bracket? opening = some first) (closes : bracket? closing = some last)
    (cuts : Cuts ((separator indent (level + 1)).intercalate texts) inside) :
    Cuts (bracketed indent level opening closing texts) (first :: (inside ++ [last])) := by
  have outside : NoMore continuesWord [closing] := by simp [continuesWord, closes]
  cases texts with
  | nil =>
      have close := cuts.append (closed_bracket closes).cuts outside
      exact (closed_bracket opens).append close
  | cons text texts =>
      have gap (depth : Nat) : Closed (lineBreak indent depth) [] :=
        (isBlank_lineBreak indent depth).closed
      have close : Cuts (lineBreak indent level ++ [closing]) [last] :=
        (gap level).append (closed_bracket closes).cuts
      have stops : NoMore continuesWord (lineBreak indent level ++ [closing]) := by
        cases indent with
        | none => exact outside
        | some width => exact noMore_cons.mpr rfl
      have between := (gap (level + 1)).append (cuts.append close stops)
      have all := (closed_bracket opens).append between
      rw [bracketed, List.append_assoc, List.append_assoc]
      · exact all
      · exact fun none => List.cons_ne_nil _ _ none

mutual

theorem cuts_printAt (indent : Option Int) (level : Nat) :
    ∀ value, Cuts (printAt indent level value) (marks value)
  | .null => show Cuts ['n', 'u', 'l', 'l'] _ from cuts_word (by decide)
  | .bool true => show Cuts ['t', 'r', 'u', 'e'] _ from cuts_word (by decide)
  | .bool false => show Cuts ['f', 'a', 'l', 's', 'e'] _ from cuts_word (by decide)
  | .integer value => cuts_word (isWord_integer value)
  | .double value => cuts_word (isWord_double value)
  | .string text => (closed_printString text).cuts
  | .array items => cuts_bracketed rfl rfl (cuts_printItems indent (level + 1) items)
  | .object members => cuts_bracketed rfl rfl (cuts_printMembers indent (level + 1) members)

theorem cuts_printItems (indent : Option Int) (level : Nat) :
    ∀ items, Cuts ((separator indent level).intercalate (printItems indent level items))
      (itemMarks items)
  | [] => closed_nil.cuts
  | item :: items =>
      cuts_separated (cuts_printAt indent level item) (cuts_printItems indent level items)

theorem cuts_printMembers (indent : Option Int) (level : Nat) :
    ∀ members, Cuts ((separator indent level).intercalate (printMembers indent level members))
      (memberMarks members)
  | [] => closed_nil.cuts
  | (name, value) :: members => by
      have colon : Closed [':', ' '] [] := closed_gap (List.all_eq_true.mp rfl)
      have member : Cuts (printString name ++ ':' :: ' ' :: printAt indent level value)
          (.string name :: marks value) :=
        (closed_printString name).append (colon.append (cuts_printAt indent level value))
      exact cuts_separated member (cuts_printMembers indent level members)

end

/-! ## Characters -/

/-- Only printable ASCII, and with an indent line ends. -/
def Fits (indent : Option Int) (text : List Char) : Prop :=
  ∀ c ∈ text, Shown c ∨ c = '\n' ∧ indent ≠ none

section Characters

variable {indent : Option Int}

theorem fits_of_shown {text : List Char} (shown : ∀ c ∈ text, Shown c) : Fits indent text :=
  fun c member => .inl (shown c member)

/-- A text that is spelled out is looked through. -/
theorem fits_of_all {text : List Char} (shown : text.all (Shown ·) = true) : Fits indent text :=
  fits_of_shown fun c member => of_decide_eq_true (List.all_eq_true.mp shown c member)

theorem fits_nil : Fits indent [] := fits_of_all (by decide)

theorem Fits.append {first second : List Char} (one : Fits indent first)
    (other : Fits indent second) : Fits indent (first ++ second) :=
  fun c member => (List.mem_append.mp member).elim (one c) (other c)

theorem Fits.cons {c : Char} {text : List Char} (shown : Shown c) (fits : Fits indent text) :
    Fits indent (c :: text) := by
  intro d member
  rcases List.mem_cons.mp member with rfl | inside
  · exact .inl shown
  · exact fits d inside

theorem shown_of_mem_unitEscape {unit : Nat} : ∀ c ∈ unitEscape unit, Shown c := by
  intro c member
  rcases List.mem_cons.mp member with rfl | inside
  · decide
  rcases List.mem_cons.mp inside with rfl | digit
  · decide
  · exact Text.shown_of_mem_hex digit

theorem fits_escape (c : Char) : Fits indent (escape c) := by
  unfold escape
  iterate 7
    split
    · exact fits_of_all (by decide)
  split
  · rename_i shown
    exact fits_nil.cons shown
  · unfold numericEscape
    split
    · exact fits_of_shown shown_of_mem_unitEscape
    · exact (fits_of_shown shown_of_mem_unitEscape).append (fits_of_shown shown_of_mem_unitEscape)

theorem fits_printString (text : String) : Fits indent (printString text) := by
  have inside : Fits indent (text.toList.flatMap escape) := by
    intro c member
    obtain ⟨d, _, written⟩ := List.mem_flatMap.mp member
    exact fits_escape d c written
  exact (inside.cons (by decide)).append (fits_of_all (by decide))

theorem fits_printInteger (value : Int) : Fits indent (printInteger value) := by
  have digits (number : Nat) : Fits indent (Nat.toDigits 10 number) :=
    fits_of_shown fun c => Text.shown_of_mem_toDigits (by decide) (by decide)
  cases value with
  | ofNat value => exact digits value
  | negSucc value => exact (digits (value + 1)).cons (by decide)

theorem shown_of_isNumeralPart {c : Char} (part : Layout.isNumeralPart c = true) : Shown c := by
  simp only [Layout.isNumeralPart, Bool.or_eq_true, decide_eq_true_eq] at part
  rcases part with (((digit | rfl) | rfl) | rfl) | rfl
  · obtain ⟨low, high⟩ := Char.isDigit_iff_toNat.mp digit
    exact ⟨UInt32.le_iff_toNat_le.mpr (Nat.le_trans (by decide) low),
      UInt32.le_iff_toNat_le.mpr (Nat.le_trans high (by decide))⟩
  all_goals decide

theorem fits_double (value : Binary64) : Fits indent (doubles.write value) := by
  cases value with
  | nan => exact fits_of_all (by decide +kernel)
  | infinite negative => cases negative <;> exact fits_of_all (by decide +kernel)
  | finite negative rank =>
      exact fits_of_shown fun c member =>
        shown_of_isNumeralPart (Layout.isNumeralPart_of_mem_write doubles _ _ c member)

theorem fits_lineBreak (level : Nat) : Fits indent (lineBreak indent level) := by
  intro c member
  cases indent with
  | none => exact absurd member List.not_mem_nil
  | some width =>
      rcases List.mem_cons.mp member with rfl | space
      · exact .inr ⟨rfl, Option.some_ne_none width⟩
      · rw [List.eq_of_mem_replicate space]
        exact .inl (by decide)

theorem fits_separator (level : Nat) : Fits indent (separator indent level) := by
  cases indent with
  | none =>
      show Fits none [',', ' ']
      exact fits_of_all (by decide)
  | some width => exact (fits_lineBreak level).cons (by decide)

theorem fits_separated {level : Nat} {first : List Char} {texts : List (List Char)}
    (fits : Fits indent first) (others : Fits indent ((separator indent level).intercalate texts)) :
    Fits indent ((separator indent level).intercalate (first :: texts)) := by
  cases texts with
  | nil => rwa [List.intercalate_singleton]
  | cons second texts =>
      rw [List.intercalate_cons_cons]
      exact (fits.append (fits_separator level)).append others

theorem fits_bracketed {level : Nat} {opening closing : Char} {texts : List (List Char)}
    (opens : Shown opening) (closes : Shown closing)
    (fits : Fits indent ((separator indent (level + 1)).intercalate texts)) :
    Fits indent (bracketed indent level opening closing texts) := by
  have close : Fits indent [closing] := fits_nil.cons closes
  cases texts with
  | nil => exact close.cons opens
  | cons text texts =>
      have start : Fits indent (opening :: lineBreak indent (level + 1)) :=
        (fits_lineBreak (level + 1)).cons opens
      rw [bracketed]
      · exact ((start.append fits).append (fits_lineBreak level)).append close
      · exact fun none => List.cons_ne_nil _ _ none

mutual

theorem fits_printAt (level : Nat) : ∀ value, Fits indent (printAt indent level value)
  | .null => show Fits indent ['n', 'u', 'l', 'l'] from fits_of_all (by decide)
  | .bool true => show Fits indent ['t', 'r', 'u', 'e'] from fits_of_all (by decide)
  | .bool false => show Fits indent ['f', 'a', 'l', 's', 'e'] from fits_of_all (by decide)
  | .integer value => fits_printInteger value
  | .double value => fits_double value
  | .string text => fits_printString text
  | .array items => fits_bracketed (by decide) (by decide) (fits_printItems (level + 1) items)
  | .object members =>
      fits_bracketed (by decide) (by decide) (fits_printMembers (level + 1) members)

theorem fits_printItems (level : Nat) :
    ∀ items, Fits indent ((separator indent level).intercalate (printItems indent level items))
  | [] => fits_nil
  | item :: items => fits_separated (fits_printAt level item) (fits_printItems level items)

theorem fits_printMembers (level : Nat) :
    ∀ members, Fits indent
      ((separator indent level).intercalate (printMembers indent level members))
  | [] => fits_nil
  | (name, value) :: members => by
      have text : Fits indent (':' :: ' ' :: printAt indent level value) :=
        ((fits_printAt level value).cons (by decide)).cons (by decide)
      exact fits_separated ((fits_printString name).append text) (fits_printMembers level members)

end

end Characters

end LoxLexer.Json
