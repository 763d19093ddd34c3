/-
# LoxLexer.Proofs.JsonGrammar -- printed values are derived from the grammar

A value whose doubles are all finite is printed as JSON (`Finite.derives_printAt`): its text
is derived from the grammar, a rule for each layer of the printer.

A number must not start with a zero that other digits follow.  Integers do not, since their
digits do not, and neither does the text of a double: its shortest digits are those of a
positive number, and where the point stands in front of them all there is one zero
(`isNumber_finite`).

The printer puts white space behind brackets and separators, and the grammar counts it to
the element or member next to it (`exists_between_commas`).
-/
import LoxLexer.Proofs.JsonText

namespace LoxLexer.Json

set_option autoImplicit false

open Numeral (Binary64 Decimal Layout)
open Text (hex)

/-! ## Numbers -/

theorem isDigits_toDigits (number : Nat) : IsDigits (Nat.toDigits 10 number) where
  some := Nat.toDigits_ne_nil
  all := Numeral.isDigit_of_mem_toDigits

/-- What comes after digits does not change which of them is first. -/
theorem IsDigits.head?_append {digits : List Char} (isDigits : IsDigits digits)
    (more : List Char) : (digits ++ more).head? = digits.head? := by
  obtain ⟨c, rest, rfl⟩ := List.exists_cons_of_ne_nil isDigits.some
  rfl

/-- The digits of a positive number have no zero in front. -/
theorem head?_toDigits {number : Nat} (positive : number ≠ 0) :
    (Nat.toDigits 10 number).head? ≠ some '0' := by
  induction number using Nat.strongRecOn with
  | ind number ih =>
      by_cases single : number < 10
      · have all : ∀ digit < 10, digit ≠ 0 → Nat.digitChar digit ≠ '0' := by decide
        rw [Nat.toDigits_of_lt_base single, List.head?_cons]
        exact fun same => all number single positive (Option.some.inj same)
      · rw [Nat.toDigits_of_base_le (by decide) (by omega),
          (isDigits_toDigits (number / 10)).head?_append]
        exact ih (number / 10) (by omega) (by omega)

theorem isWhole_zero : IsWhole ['0'] := .inl rfl

theorem IsWhole.isDigits {text : List Char} (isWhole : IsWhole text) : IsDigits text := by
  rcases isWhole with rfl | ⟨isDigits, -⟩
  · exact isDigits_toDigits 0
  · exact isDigits

theorem isWhole_toDigits (number : Nat) : IsWhole (Nat.toDigits 10 number) := by
  by_cases zero : number = 0
  · rw [zero]
    exact isWhole_zero
  · exact .inr ⟨isDigits_toDigits number, head?_toDigits zero⟩

theorem isNumber_printInteger (value : Int) : IsNumber (printInteger value) := by
  have number (minus : List Char) (signed : minus ∈ [[], ['-']]) (size : Nat) :
      IsNumber (minus ++ Nat.toDigits 10 size) := by
    have made := IsNumber.mk signed (isWhole_toDigits size) .none .none
    rwa [List.append_nil, List.append_nil] at made
  cases value with
  | ofNat value => exact number [] (by decide) value
  | negSucc value => exact number ['-'] (by decide) (value + 1)

namespace IsDigits

variable {digits : List Char} (isDigits : IsDigits digits)

include isDigits

theorem append {more : List Char} (all : ∀ c ∈ more, c.isDigit = true) :
    IsDigits (digits ++ more) where
  some := List.append_ne_nil_of_left_ne_nil isDigits.some more
  all c member := (List.mem_append.mp member).elim (isDigits.all c) (all c)

theorem behind {first : List Char} (all : ∀ c ∈ first, c.isDigit = true) :
    IsDigits (first ++ digits) where
  some := List.append_ne_nil_of_right_ne_nil first isDigits.some
  all c member := (List.mem_append.mp member).elim (all c) (isDigits.all c)

theorem take {count : Nat} (positive : 0 < count) : IsDigits (digits.take count) where
  some := Binary64.take_ne_nil isDigits.some positive
  all := Binary64.isDigit_of_mem_take isDigits.all count

theorem drop {count : Nat} (short : count < digits.length) : IsDigits (digits.drop count) where
  some := by
    rw [Ne, List.drop_eq_nil_iff]
    omega
  all := Binary64.isDigit_of_mem_drop isDigits.all count

end IsDigits

/-- A written exponent, whose digits may have zeros in front. -/
theorem isExponent_written (exponent : Int) (count : Nat) :
    IsExponent ('e' :: (if exponent < 0 then '-' else '+') ::
      (Layout.zeros count ++ Nat.toDigits 10 exponent.natAbs)) := by
  have zeros : ∀ c ∈ Layout.zeros count, c.isDigit = true := Numeral.isDigit_of_mem_zeros
  have size := (isDigits_toDigits exponent.natAbs).behind zeros
  have minus : ['-'] ∈ [[], ['+'], ['-']] := by decide
  have plus : ['+'] ∈ [[], ['+'], ['-']] := by decide
  split
  · exact .power (by decide) minus size
  · exact .power (by decide) plus size

theorem isNumber_point {minus whole fraction : List Char} (signed : minus ∈ [[], ['-']])
    (isWhole : IsWhole whole) (isFraction : IsDigits fraction) :
    IsNumber (minus ++ (whole ++ '.' :: fraction)) := by
  have made := IsNumber.mk signed isWhole (.point isFraction) .none
  rwa [List.append_nil, List.append_assoc] at made

section Decimals

variable {minus digits : List Char} (signed : minus ∈ [[], ['-']]) (isDigits : IsDigits digits)
  (leading : digits.head? ≠ some '0')

include signed isDigits leading

/-- Digits with a point make a number, as the zeros in front of them stand behind the
point. -/
theorem isNumber_plain (point : Int) : IsNumber (minus ++ Layout.plain digits point) := by
  unfold Layout.plain
  split
  · exact isNumber_point signed isWhole_zero (isDigits.behind Numeral.isDigit_of_mem_zeros)
  split
  · have filled : IsDigits (digits ++ Layout.zeros (point.toNat - digits.length)) :=
      isDigits.append Numeral.isDigit_of_mem_zeros
    have first : (digits ++ Layout.zeros (point.toNat - digits.length)).head? ≠ some '0' := by
      rwa [isDigits.head?_append]
    exact isNumber_point signed (.inr ⟨filled, first⟩) (isDigits_toDigits 0)
  · have whole : IsDigits (digits.take point.toNat) := isDigits.take (by omega)
    have first : (digits.take point.toNat).head? ≠ some '0' := by
      rwa [← whole.head?_append (digits.drop point.toNat), List.take_append_drop]
    exact isNumber_point signed (.inr ⟨whole, first⟩) (isDigits.drop (by omega))

theorem isNumber_scientific (exponent : Int) :
    IsNumber (minus ++ Layout.scientific digits exponent) := by
  have whole : IsDigits (digits.take 1) := isDigits.take Nat.one_pos
  have first : (digits.take 1).head? ≠ some '0' := by
    rwa [← whole.head?_append (digits.drop 1), List.take_append_drop]
  have number {fraction : List Char} (isFraction : IsFraction fraction) (count : Nat) :
      IsNumber (minus ++ (digits.take 1 ++ fraction ++ 'e' ::
        (if exponent < 0 then '-' else '+') ::
          (Layout.zeros count ++ Nat.toDigits 10 exponent.natAbs))) := by
    have made := IsNumber.mk signed (.inr ⟨whole, first⟩) isFraction
      (isExponent_written exponent count)
    rwa [List.append_assoc, List.append_assoc, ← List.append_assoc (digits.take 1)] at made
  unfold Layout.scientific
  dsimp only
  split
  · exact number .none _
  · exact number (.point (isDigits.drop (by omega))) _

end Decimals

/-- Only zero is written with the digit zero alone. -/
theorem digits_shortest_ne_zero {rank : Fin Numeral.rankBound} (positive : rank.val ≠ 0) :
    (Decimal.shortest rank.val).digits ≠ 0 := by
  intro zero
  have back := Binary64.ofDecimal_shortest false rank
  have none := Binary64.ofDecimal_of_le false (d := ⟨0, (Decimal.shortest rank.val).exponent⟩)
    (by simp [Decimal.num])
  rw [zero, none] at back
  exact positive (congrArg Fin.val (Binary64.finite.inj back).2).symm

/-- **A finite double is written as a number.** -/
theorem isNumber_finite (negative : Bool) (rank : Fin Numeral.rankBound) :
    IsNumber (doubles.write (.finite negative rank)) := by
  have signed : Layout.sign negative ∈ [[], ['-']] := by cases negative <;> decide
  show IsNumber (Layout.sign negative ++ if rank.val = 0 then ['0', '.', '0']
    else doubles.decimal (Decimal.shortest rank.val))
  split
  · exact isNumber_point signed isWhole_zero (isDigits_toDigits 0)
  · rename_i positive
    have leading := head?_toDigits (digits_shortest_ne_zero positive)
    unfold Layout.decimal
    dsimp only
    split
    · exact isNumber_plain signed (isDigits_toDigits _) leading _
    · exact isNumber_scientific signed (isDigits_toDigits _) leading _

/-! ## Strings -/

theorem isHexDigit_digitChar {digit : Nat} (small : digit < 16) :
    isHexDigit (Nat.digitChar digit) = true := by
  have all : ∀ digit < 16, isHexDigit (Nat.digitChar digit) = true := by decide
  exact all digit small

theorem isCharacter_unitEscape {unit : Nat} (small : unit < 0x10000) :
    IsCharacter (unitEscape unit) := by
  have few : (Nat.toDigits 16 unit).length ≤ 4 :=
    (Nat.length_toDigits_le_iff (by decide) (by decide)).mpr small
  apply IsCharacter.number
  · rw [hex, List.length_append, List.length_replicate]
    omega
  · intro c member
    rcases List.mem_append.mp member with zero | digit
    · rw [List.eq_of_mem_replicate zero]
      rfl
    · obtain ⟨digit, less, rfl⟩ := Text.exists_of_mem_toDigits (by decide) digit
      exact isHexDigit_digitChar less

/-- A text of characters as they stand in a string. -/
def IsEscaped (text : List Char) : Prop :=
  ∃ characters : List (List Char), (∀ one ∈ characters, IsCharacter one) ∧
    text = characters.flatten

theorem IsCharacter.isEscaped {text : List Char} (isCharacter : IsCharacter text) :
    IsEscaped text :=
  ⟨[text], List.forall_mem_singleton.mpr isCharacter, (List.append_nil text).symm⟩

theorem IsEscaped.append {first second : List Char} (one : IsEscaped first)
    (other : IsEscaped second) : IsEscaped (first ++ second) := by
  obtain ⟨characters, all, rfl⟩ := one
  obtain ⟨others, allOthers, rfl⟩ := other
  refine ⟨characters ++ others, ?_, List.flatten_append.symm⟩
  exact List.forall_mem_append.mpr ⟨all, allOthers⟩

theorem isEscaped_escape (c : Char) : IsEscaped (escape c) := by
  unfold escape
  split
  · exact (IsCharacter.letter (by decide)).isEscaped
  rename_i notQuote
  split
  · exact (IsCharacter.letter (by decide)).isEscaped
  rename_i notBackslash
  iterate 5
    split
    · exact (IsCharacter.letter (by decide)).isEscaped
  split
  · rename_i shown
    exact (IsCharacter.plain shown.1 notQuote notBackslash).isEscaped
  · unfold numericEscape
    split
    · rename_i below
      exact (isCharacter_unitEscape below).isEscaped
    · have valid : c.toNat < 0x110000 := by
        have cases : c.toNat < 0xD800 ∨ 0xDFFF < c.toNat ∧ c.toNat < 0x110000 := c.valid
        omega
      exact (isCharacter_unitEscape (by omega)).isEscaped.append
        (isCharacter_unitEscape (by omega)).isEscaped

theorem isString_printString (text : String) : IsString (printString text) := by
  have escaped (body : List Char) : IsEscaped (body.flatMap escape) := by
    induction body with
    | nil => exact ⟨[], List.forall_mem_nil _, rfl⟩
    | cons c body ih => exact (isEscaped_escape c).append ih
  obtain ⟨characters, all, written⟩ := escaped text.toList
  show IsString ('"' :: (text.toList.flatMap escape ++ ['"']))
  rw [written]
  exact .mk all

/-! ## Printed values -/

/-- A value whose doubles are all finite. -/
inductive Finite : Json → Prop
  | null : Finite .null
  | bool (value : Bool) : Finite (.bool value)
  | integer (value : Int) : Finite (.integer value)
  | double ( negative : Bool) (rank : Fin Numeral.rankBound) :
      Finite (.double (.finite negative rank))
  | string (text : String) : Finite (.string text)
  | array {items : List Json} : (∀ item ∈ items, Finite item) → Finite (.array items)
  | object {members : List (String × Json)} :
      (∀ entry ∈ members, Finite entry.2) → Finite (.object members)

theorem isBlank_nil : IsBlank [] := List.forall_mem_nil _

theorem IsBlank.append {first second : List Char} (one : IsBlank first) (other : IsBlank second) :
    IsBlank (first ++ second) :=
  List.forall_mem_append.mpr ⟨one, other⟩

theorem Derives.of_value {value : List Char} (derives : Derives .value value) :
    Derives .element value := by
  have made := Derives.element isBlank_nil derives isBlank_nil
  rwa [List.append_nil] at made

section Padding

variable {before text after : List Char} (first : IsBlank before) (last : IsBlank after)

include first last

/-- Around an element there may be more white space. -/
theorem Derives.pad_element (derives : Derives .element text) :
    Derives .element (before ++ text ++ after) := by
  cases derives with
  | @element inner value outer blank derives blank' =>
      have made := Derives.element (first.append blank) derives (blank'.append last)
      simpa only [List.append_assoc] using made

/-- Around a member there may be more white space. -/
theorem Derives.pad_member (derives : Derives .member text) :
    Derives .member (before ++ text ++ after) := by
  cases derives with
  | @member inner name outer element blank isString blank' derives =>
      have made := Derives.member (first.append blank) isString blank'
        (derives.pad_element isBlank_nil last)
      simpa only [List.append_assoc, List.nil_append, List.cons_append] using made

/-- White space around what stands between two commas belongs to it. -/
theorem Derives.pad {part : Part} (apart : part ≠ .value) (derives : Derives part text) :
    Derives part (before ++ text ++ after) := by
  cases part with
  | value => exact absurd rfl apart
  | element => exact derives.pad_element first last
  | member => exact derives.pad_member first last

end Padding

/-- What stands between separators stands between commas, with the white space that the
separators bring. -/
theorem exists_between_commas {part : Part} (apart : part ≠ .value) {gap : List Char}
    (blank : IsBlank gap) {after : List Char} (last : IsBlank after) {texts : List (List Char)}
    (all : ∀ text ∈ texts, Derives part text) :
    ∀ {before : List Char}, IsBlank before → ∀ {text : List Char}, Derives part text →
      ∃ items, items ≠ [] ∧ (∀ item ∈ items, Derives part item) ∧
        [','].intercalate items =
          before ++ (',' :: gap).intercalate (text :: texts) ++ after := by
  induction texts with
  | nil =>
      intro before first text derives
      refine ⟨[before ++ text ++ after], List.cons_ne_nil _ _, ?_, ?_⟩
      · exact List.forall_mem_singleton.mpr (derives.pad first last apart)
      · rw [List.intercalate_singleton, List.intercalate_singleton]
  | cons next texts ih =>
      intro before first text derives
      rw [List.forall_mem_cons] at all
      obtain ⟨items, some, derived, written⟩ := ih all.2 blank all.1
      obtain ⟨item, items, rfl⟩ := List.exists_cons_of_ne_nil some
      refine ⟨(before ++ text ++ []) :: item :: items, List.cons_ne_nil _ _, ?_, ?_⟩
      · exact List.forall_mem_cons.mpr ⟨derives.pad first isBlank_nil apart, derived⟩
      · rw [List.intercalate_cons_cons, written, List.intercalate_cons_cons]
        simp only [List.append_assoc, List.nil_append, List.cons_append]

/-- Brackets with elements or members between them. -/
theorem exists_bracketed {part : Part} (apart : part ≠ .value) (indent : Option Int) (level : Nat)
    (opening closing : Char) {texts : List (List Char)} (some : texts ≠ [])
    (all : ∀ text ∈ texts, Derives part text) :
    ∃ items, items ≠ [] ∧ (∀ item ∈ items, Derives part item) ∧
      bracketed indent level opening closing texts =
        opening :: ([','].intercalate items ++ [closing]) := by
  obtain ⟨text, texts, rfl⟩ := List.exists_cons_of_ne_nil some
  rw [List.forall_mem_cons] at all
  obtain ⟨gap, comma, blank⟩ := separator_eq indent (level + 1)
  obtain ⟨items, nonempty, derived, written⟩ :=
    exists_between_commas apart blank (isBlank_lineBreak indent level) all.2
      (isBlank_lineBreak indent (level + 1)) all.1
  refine ⟨items, nonempty, derived, ?_⟩
  rw [written, bracketed, comma]
  · rfl
  · exact fun none => List.cons_ne_nil _ _ none

theorem printItems_eq_map (indent : Option Int) (level : Nat) (items : List Json) :
    printItems indent level items = items.map (printAt indent level) := by
  induction items with
  | nil => rfl
  | cons item items ih => rw [printItems, ih, List.map_cons]

theorem printMembers_eq_map (indent : Option Int) (level : Nat) (members : List (String × Json)) :
    printMembers indent level members =
      members.map fun entry =>
        printString entry.1 ++ ':' :: ' ' :: printAt indent level entry.2 := by
  induction members with
  | nil => rfl
  | cons entry members ih => rw [printMembers, ih, List.map_cons]

/-- **A value of finite doubles is printed as JSON**, whatever its indent and level. -/
theorem Finite.derives_printAt {value : Json} (finite : value.Finite) (indent : Option Int) :
    ∀ level, Derives .value (printAt indent level value) := by
  induction finite with
  | null => exact fun level => .null
  | bool value =>
      intro level
      cases value with
      | true => exact .true
      | false => exact .false
  | integer value => exact fun level => .number (isNumber_printInteger value)
  | double minus rank => exact fun level => .number (isNumber_finite minus rank)
  | string text => exact fun level => .string (isString_printString text)
  | @array items _ ih =>
      intro level
      by_cases empty : items = []
      · rw [empty]
        exact .emptyArray isBlank_nil
      have all : ∀ text ∈ printItems indent (level + 1) items, Derives .element text := by
        rw [printItems_eq_map, List.forall_mem_map]
        exact fun item member => (ih item member (level + 1)).of_value
      have some : printItems indent (level + 1) items ≠ [] := by
        rwa [printItems_eq_map, Ne, List.map_eq_nil_iff]
      obtain ⟨texts, nonempty, derived, written⟩ :=
        exists_bracketed (by decide) indent level '[' ']' some all
      rw [printAt, written]
      exact .array nonempty derived
  | @object members _ ih =>
      intro level
      by_cases empty : members = []
      · rw [empty]
        exact .emptyObject isBlank_nil
      have all : ∀ text ∈ printMembers indent (level + 1) members, Derives .member text := by
        rw [printMembers_eq_map, List.forall_mem_map]
        intro entry member
        have space : IsBlank [' '] := List.forall_mem_singleton.mpr (by decide)
        have element := (ih entry member (level + 1)).of_value.pad_element space isBlank_nil
        rw [List.append_nil] at element
        have made := Derives.member isBlank_nil (isString_printString entry.1) isBlank_nil element
        rwa [List.append_nil] at made
      have some : printMembers indent (level + 1) members ≠ [] := by
        rwa [printMembers_eq_map, Ne, List.map_eq_nil_iff]
      obtain ⟨texts, nonempty, derived, written⟩ :=
        exists_bracketed (by decide) indent level '\x7b' '\x7d' some all
      rw [printAt, written]
      exact .object nonempty derived

end LoxLexer.Json
