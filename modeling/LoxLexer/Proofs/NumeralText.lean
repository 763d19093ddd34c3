/-
# LoxLexer.Proofs.NumeralText -- a written double reads back

A layout writes a finite double with its shortest digits, in one of three plain forms or
with an exponent.  Each form is read as the decimal of those digits (`decimal?_plain`,
`decimal?_scientific`): what the point moves, the reader takes back, and the zeros that fill
up a whole number are a power of ten.  The shortest digits read back as the double, so a
layout whose names of the other values read back too is read as it was written
(`read?_write`).

The text of a double has a point, an exponent or a name in it, so it is never the text of an
integer (`exponent?_of_looksDecimal`).
-/
import LoxLexer.Numeral.Layout
import LoxLexer.Proofs.AsciiText
import LoxLexer.Proofs.LongestMatch
import LoxLexer.Proofs.Shortest

namespace LoxLexer.Numeral

set_option autoImplicit false

/-! ## Digits -/

theorem isDigit_of_mem_zeros {count : Nat} : ∀ c ∈ Layout.zeros count, c.isDigit = true := by
  intro c member
  rw [List.eq_of_mem_replicate member]
  rfl

theorem isDigit_of_mem_zero : ∀ c ∈ ['0'], c.isDigit = true := by
  show ∀ c ∈ Layout.zeros 1, c.isDigit = true
  exact isDigit_of_mem_zeros

theorem isDigit_of_mem_toDigits {number : Nat} :
    ∀ c ∈ Nat.toDigits 10 number, c.isDigit = true := by
  intro c member
  exact Nat.isDigit_of_mem_toDigits (by decide) (by decide) member

/-- What starts with a digit starts with no other character. -/
theorem cons_ne_of_isDigit {c mark : Char} (digit : c.isDigit = true)
    (other : mark.isDigit = false) (rest more : List Char) : c :: rest ≠ mark :: more := by
  intro same
  rw [(List.cons.inj same).1, other] at digit
  cases digit

/-- Zeros in front of digits do not count. -/
@[simp] theorem ofDigitChars_zeros_append (count : Nat) (digits : List Char) :
    Nat.ofDigitChars 10 (Layout.zeros count ++ digits) 0 = Nat.ofDigitChars 10 digits 0 := by
  rw [Nat.ofDigitChars_append, Layout.zeros, Nat.ofDigitChars_replicate_zero, Nat.mul_zero]

/-- Zeros after digits are a power of ten. -/
@[simp] theorem ofDigitChars_append_zeros (digits : List Char) (count : Nat) :
    Nat.ofDigitChars 10 (digits ++ Layout.zeros count) 0 =
      Nat.ofDigitChars 10 digits 0 * Nat.pow 10 count := by
  rw [Nat.ofDigitChars_append, Layout.zeros, Nat.ofDigitChars_replicate_zero, Nat.mul_comm]
  rfl

namespace Binary64

/-! ## Reading the parts of a numeral -/

/-- What is made of a numeral that is cut into its parts, with what comes after them. -/
def ofParts? (negative : Bool) (whole fraction : List Char) : List Char → Option Binary64
  | [] => some (ofDigits negative whole fraction)
  | mark :: rest =>
      if mark = 'e' || mark = 'E' then
        (exponent? rest).map fun exponent =>
          scaled negative (Nat.ofDigitChars 10 (whole ++ fraction) 0) (exponent - fraction.length)
      else none

section Parts

variable (negative : Bool) {whole fraction after : List Char} (named : whole ≠ [])
  (wholeDigits : ∀ c ∈ whole, c.isDigit = true)

include named wholeDigits

/-- The point ends the whole part, and what is no digit the fraction. -/
theorem decimal?_of_point (fractionDigits : ∀ c ∈ fraction, c.isDigit = true)
    (stops : NoMore Char.isDigit after) :
    decimal? negative (whole ++ '.' :: (fraction ++ after)) =
      ofParts? negative whole fraction after := by
  have point : NoMore Char.isDigit ('.' :: (fraction ++ after)) := noMore_cons.mpr rfl
  have taken := takeWhile_of_noMore fractionDigits stops
  have left := dropWhile_of_noMore fractionDigits stops
  have some_whole : whole.isEmpty = false := by
    simpa using named
  unfold decimal?
  rw [takeWhile_of_noMore wholeDigits point, dropWhile_of_noMore wholeDigits point]
  simp only [taken, left, some_whole, Bool.false_and, Bool.false_eq_true, if_false]
  cases after <;> rfl

/-- Without a point there is no fraction. -/
theorem decimal?_of_no_point (stops : NoMore Char.isDigit after)
    (pointless : NoMore (· = '.') after) :
    decimal? negative (whole ++ after) = ofParts? negative whole [] after := by
  have some_whole : whole.isEmpty = false := by
    simpa using named
  unfold decimal?
  rw [takeWhile_of_noMore wholeDigits stops, dropWhile_of_noMore wholeDigits stops]
  cases after with
  | nil => simp [some_whole, ofParts?]
  | cons mark rest =>
      have other : mark ≠ '.' := by simpa using pointless mark rfl
      simp [some_whole, ofParts?, other]

end Parts

/-- What starts with a digit has no sign. -/
theorem exponent?_of_head {c : Char} (digit : c.isDigit = true) (rest : List Char) :
    exponent? (c :: rest) =
      if (c :: rest).all Char.isDigit then some (Nat.ofDigitChars 10 (c :: rest) 0 : Int)
      else none := by
  unfold exponent?
  split
  rename_i below digits parts
  split at parts
  · rename_i minus
    exact absurd minus (cons_ne_of_isDigit digit rfl _ _)
  · rename_i plus
    exact absurd plus (cons_ne_of_isDigit digit rfl _ _)
  · obtain ⟨rfl, rfl⟩ := Prod.mk.inj parts
    cases all : (c :: rest).all Char.isDigit <;> simp

/-- The written exponent is the exponent. -/
theorem exponent?_written (exponent : Int) (count : Nat) :
    exponent? ((if exponent < 0 then '-' else '+') ::
      (Layout.zeros count ++ Nat.toDigits 10 exponent.natAbs)) = some exponent := by
  have digits : ∀ c ∈ Layout.zeros count ++ Nat.toDigits 10 exponent.natAbs,
      c.isDigit = true := by
    intro c member
    rcases List.mem_append.mp member with zero | digit
    · exact isDigit_of_mem_zeros c zero
    · exact isDigit_of_mem_toDigits c digit
  have all := List.all_eq_true.mpr digits
  have written : (Layout.zeros count ++ Nat.toDigits 10 exponent.natAbs).isEmpty = false := by
    simp [Nat.toDigits_ne_nil]
  have size : Nat.ofDigitChars 10 (Layout.zeros count ++ Nat.toDigits 10 exponent.natAbs) 0 =
      exponent.natAbs := by
    rw [ofDigitChars_zeros_append, Nat.ofDigitChars_ten_toDigits]
  by_cases below : exponent < 0
  · rw [if_pos below]
    unfold exponent?
    simp only [all, written, size, Bool.not_true, Bool.or_self, Bool.false_eq_true, if_false,
      if_true]
    congr 1
    omega
  · rw [if_neg below]
    unfold exponent?
    simp only [all, written, size, Bool.not_true, Bool.or_self, Bool.false_eq_true, if_false]
    congr 1
    omega

/-- A number followed by `e` and a written exponent is its digits to that power. -/
theorem ofParts?_written (negative : Bool) (whole fraction : List Char) (exponent : Int)
    (count : Nat) :
    ofParts? negative whole fraction ('e' :: (if exponent < 0 then '-' else '+') ::
      (Layout.zeros count ++ Nat.toDigits 10 exponent.natAbs)) =
      some (ofDecimal negative (Nat.ofDigitChars 10 (whole ++ fraction) 0)
        (exponent - fraction.length)) := by
  show (exponent? _).map _ = _
  rw [exponent?_written, Option.map_some, scaled_eq_ofDecimal]

/-! ## Reading what a layout writes -/

/-- Zeros before the point are a power of ten. -/
theorem ofDecimal_of_zeros (negative : Bool) (number count : Nat) :
    ofDecimal negative (number * Nat.pow 10 count * 10) (-1) =
      ofDecimal negative number count := by
  have same := ofDecimal_of_same negative (Decimal.same_of_zero (number * Nat.pow 10 count) (-1))
  rw [same]
  show nearest negative (number * Nat.pow 10 count * 1) 1 = _
  rw [Nat.mul_one]
  rfl

theorem take_ne_nil {digits : List Char} (named : digits ≠ []) {count : Nat}
    (positive : 0 < count) : digits.take count ≠ [] := by
  rw [Ne, List.take_eq_nil_iff]
  rintro (none | none)
  · omega
  · exact named none

section Digits

variable {digits : List Char} (named : digits ≠ []) (all : ∀ c ∈ digits, c.isDigit = true)

include all

theorem isDigit_of_mem_zeros_append (count : Nat) :
    ∀ c ∈ Layout.zeros count ++ digits, c.isDigit = true := by
  intro c member
  rcases List.mem_append.mp member with zero | digit
  · exact isDigit_of_mem_zeros c zero
  · exact all c digit

theorem isDigit_of_mem_take (count : Nat) : ∀ c ∈ digits.take count, c.isDigit = true :=
  fun c member => all c (List.mem_of_mem_take member)

theorem isDigit_of_mem_drop (count : Nat) : ∀ c ∈ digits.drop count, c.isDigit = true :=
  fun c member => all c (List.mem_of_mem_drop member)

include named

/-- Digits with a point are read as their decimal. -/
theorem decimal?_plain (negative : Bool) (exponent : Int) :
    decimal? negative (Layout.plain digits (digits.length + exponent)) =
      some (ofDecimal negative (Nat.ofDigitChars 10 digits 0) exponent) := by
  have zero := isDigit_of_mem_zero
  unfold Layout.plain
  split
  · rename_i below
    have read := decimal?_of_point negative (List.cons_ne_nil '0' []) zero
      (isDigit_of_mem_zeros_append all (-(digits.length + exponent)).toNat) (noMore_nil _)
    rw [List.append_nil] at read
    have value := ofDigitChars_zeros_append ((-(digits.length + exponent)).toNat + 1) digits
    show decimal? negative (['0'] ++ '.' :: _) = _
    rw [read, ofParts?, ofDigits]
    show some (ofDecimal negative
      (Nat.ofDigitChars 10 (Layout.zeros (_ + 1) ++ digits) 0) _) = _
    rw [value, List.length_append, Layout.zeros, List.length_replicate]
    congr 2
    omega
  split
  · rename_i inside whole
    obtain ⟨count, rfl⟩ : ∃ count : Nat, exponent = count := ⟨exponent.toNat, by omega⟩
    have filled : ((digits.length : Int) + count).toNat - digits.length = count := by omega
    have wholeDigits : ∀ c ∈ digits ++ Layout.zeros count, c.isDigit = true := by
      intro c member
      rcases List.mem_append.mp member with digit | zero
      · exact all c digit
      · exact isDigit_of_mem_zeros c zero
    have read := decimal?_of_point negative (List.append_ne_nil_of_left_ne_nil named _) wholeDigits
      zero (noMore_nil _)
    rw [filled]
    show decimal? negative (digits ++ Layout.zeros count ++ '.' :: (['0'] ++ [])) = _
    rw [read, ofParts?, ofDigits]
    show some (ofDecimal negative (Nat.ofDigitChars 10 (_ ++ Layout.zeros 1) 0) (-1)) = _
    rw [ofDigitChars_append_zeros, ofDigitChars_append_zeros]
    exact congrArg some (ofDecimal_of_zeros negative _ count)
  · rename_i inside outside
    generalize count : ((digits.length : Int) + exponent).toNat = whole at outside
    have read := decimal?_of_point negative (take_ne_nil named (show 0 < whole by omega))
      (isDigit_of_mem_take all whole) (isDigit_of_mem_drop all whole) (noMore_nil _)
    rw [List.append_nil] at read
    rw [read, ofParts?, ofDigits, List.take_append_drop, List.length_drop]
    congr 2
    omega

/-- Digits with an exponent are read as their decimal. -/
theorem decimal?_scientific (negative : Bool) (exponent : Int) :
    decimal? negative (Layout.scientific digits (digits.length + exponent - 1)) =
      some (ofDecimal negative (Nat.ofDigitChars 10 digits 0) exponent) := by
  have some_digit : 0 < digits.length := List.length_pos_iff.mpr named
  have marked (rest : List Char) : NoMore Char.isDigit ('e' :: rest) := noMore_cons.mpr rfl
  have pointless (rest : List Char) : NoMore (· = '.') ('e' :: rest) := noMore_cons.mpr rfl
  unfold Layout.scientific
  dsimp only
  by_cases single : digits.length ≤ 1
  · have first : digits.take 1 = digits := List.take_of_length_le single
    rw [if_pos single, first, List.append_nil,
      decimal?_of_no_point negative named all (marked _) (pointless _), ofParts?_written,
      List.append_nil, List.length_nil]
    congr 2
    omega
  · rw [if_neg single, List.append_assoc]
    show decimal? negative (digits.take 1 ++ '.' :: (digits.drop 1 ++ 'e' :: _)) = _
    rw [decimal?_of_point negative (take_ne_nil named Nat.one_pos) (isDigit_of_mem_take all 1)
      (isDigit_of_mem_drop all 1) (marked _), ofParts?_written, List.take_append_drop,
      List.length_drop]
    congr 2
    omega

end Digits

/-! ## The whole text -/

/-- No name starts like a number. -/
theorem unsigned?_of_digit (negative : Bool) {c : Char} (digit : c.isDigit = true)
    (rest : List Char) : unsigned? negative (c :: rest) = decimal? negative (c :: rest) := by
  have lower : c.toLower = c := by
    have small := (Char.isDigit_iff_toNat.mp digit).2
    have notUpper : ¬ (c.val ≥ 'A'.val ∧ c.val ≤ 'Z'.val) := by
      rintro ⟨upper, -⟩
      have large : 'A'.toNat ≤ c.toNat := UInt32.le_iff_toNat_le.mp upper
      have order : '9'.toNat < 'A'.toNat := by decide
      omega
    exact dif_neg notUpper
  have apart (first : Char) (letter : first.isDigit = false) (others : List Char) :
      String.ofList ((c :: rest).map Char.toLower) ≠ String.ofList (first :: others) := by
    intro same
    have texts := congrArg String.toList same
    rw [String.toList_ofList, String.toList_ofList, List.map_cons, lower] at texts
    exact cons_ne_of_isDigit digit letter _ _ texts
  unfold unsigned?
  rw [if_neg, if_neg]
  · exact apart 'n' rfl ['a', 'n']
  · rw [Bool.or_eq_true, decide_eq_true_eq, decide_eq_true_eq]
    rintro (short | long)
    · exact apart 'i' rfl ['n', 'f'] short
    · exact apart 'i' rfl ['n', 'f', 'i', 'n', 'i', 't', 'y'] long

/-- A sign in front of what has none is read first. -/
theorem read?_sign (negative : Bool) {c : Char} (digit : c.isDigit = true) (rest : List Char) :
    read? (Layout.sign negative ++ c :: rest) = decimal? negative (c :: rest) := by
  cases negative with
  | true => exact unsigned?_of_digit true digit rest
  | false =>
      show read? (c :: rest) = _
      unfold read?
      split
      · rename_i minus
        exact absurd minus (cons_ne_of_isDigit digit rfl _ _)
      · rename_i plus
        exact absurd plus (cons_ne_of_isDigit digit rfl _ _)
      · exact unsigned?_of_digit false digit rest

end Binary64

namespace Layout

open Binary64

/-- The names of a layout for the values without digits are read as those values. -/
structure Legible (layout : Layout) : Prop where
  infinity : ∀ negative, read? (sign negative ++ layout.infinity.toList) = some (.infinite negative)
  notANumber : read? layout.notANumber.toList = some .nan

/-- The characters of written decimals. -/
def isNumeralPart (c : Char) : Bool := c.isDigit || c = '.' || c = 'e' || c = '+' || c = '-'

/-- What a written decimal looks like: a digit in front, then digits, signs and, at least
once, a point or an `e`. -/
structure LooksDecimal (text : List Char) : Prop where
  head : ∃ c rest, text = c :: rest ∧ c.isDigit = true
  parts : ∀ c ∈ text, isNumeralPart c = true
  marked : ∃ c ∈ text, c = '.' ∨ c = 'e'

theorem isNumeralPart_of_isDigit {c : Char} (digit : c.isDigit = true) :
    isNumeralPart c = true := by
  simp [isNumeralPart, digit]

/-- Digits with a point or an `e` after them, and more after that, look like a decimal. -/
theorem looksDecimal_of_mark {whole rest : List Char} {mark : Char} (named : whole ≠ [])
    (all : ∀ c ∈ whole, c.isDigit = true) (marked : mark = '.' ∨ mark = 'e')
    (parts : ∀ c ∈ rest, isNumeralPart c = true) : LooksDecimal (whole ++ mark :: rest) where
  head := by
    obtain ⟨c, more, rfl⟩ := List.exists_cons_of_ne_nil named
    exact ⟨c, more ++ mark :: rest, rfl, all c List.mem_cons_self⟩
  parts := by
    intro c member
    rcases List.mem_append.mp member with digit | after
    · exact isNumeralPart_of_isDigit (all c digit)
    rcases List.mem_cons.mp after with rfl | later
    · rcases marked with rfl | rfl <;> rfl
    · exact parts c later
  marked := ⟨mark, List.mem_append_right _ List.mem_cons_self, marked⟩

section Digits

variable {digits : List Char} (named : digits ≠ []) (all : ∀ c ∈ digits, c.isDigit = true)

include named all

/-- Digits with a point are a whole part and a fraction, neither of them empty. -/
theorem exists_plain_eq (point : Int) : ∃ whole fraction,
    plain digits point = whole ++ '.' :: fraction ∧
      (whole ≠ [] ∧ ∀ c ∈ whole, c.isDigit = true) ∧
      fraction ≠ [] ∧ ∀ c ∈ fraction, c.isDigit = true := by
  have zero := isDigit_of_mem_zero
  unfold plain
  split
  · exact ⟨['0'], _, rfl, ⟨List.cons_ne_nil '0' [], zero⟩,
      List.append_ne_nil_of_right_ne_nil _ named, isDigit_of_mem_zeros_append all _⟩
  split
  · refine ⟨_, ['0'], rfl, ⟨List.append_ne_nil_of_left_ne_nil named _, ?_⟩,
      List.cons_ne_nil '0' [], zero⟩
    intro c member
    rcases List.mem_append.mp member with digit | filled
    · exact all c digit
    · exact isDigit_of_mem_zeros c filled
  · rename_i inside outside
    refine ⟨_, _, rfl, ⟨take_ne_nil named (by omega), isDigit_of_mem_take all _⟩, ?_,
      isDigit_of_mem_drop all _⟩
    rw [Ne, List.drop_eq_nil_iff]
    exact outside

theorem looksDecimal_plain (point : Int) : LooksDecimal (plain digits point) := by
  obtain ⟨whole, fraction, written, ⟨some, wholeDigits⟩, -, fractionDigits⟩ :=
    exists_plain_eq named all point
  rw [written]
  apply looksDecimal_of_mark some wholeDigits (.inl rfl)
  exact fun c member => isNumeralPart_of_isDigit (fractionDigits c member)

theorem looksDecimal_scientific (exponent : Int) : LooksDecimal (scientific digits exponent) := by
  have written (count : Nat) : ∀ c ∈ (if exponent < 0 then '-' else '+') ::
      (zeros count ++ Nat.toDigits 10 exponent.natAbs), isNumeralPart c = true := by
    intro c member
    rcases List.mem_cons.mp member with rfl | digit
    · split <;> rfl
    · exact isNumeralPart_of_isDigit
        (isDigit_of_mem_zeros_append isDigit_of_mem_toDigits count c digit)
  unfold scientific
  dsimp only
  have first := take_ne_nil named Nat.one_pos
  split
  · rw [List.append_nil]
    exact looksDecimal_of_mark first (isDigit_of_mem_take all 1) (.inr rfl) (written _)
  · rw [List.append_assoc]
    apply looksDecimal_of_mark first (isDigit_of_mem_take all 1) (.inl rfl)
    intro c member
    rcases List.mem_append.mp member with digit | after
    · exact isNumeralPart_of_isDigit (isDigit_of_mem_drop all 1 c digit)
    rcases List.mem_cons.mp after with rfl | later
    · rfl
    · exact written _ c later

end Digits

theorem looksDecimal_decimal (layout : Layout) (d : Decimal) : LooksDecimal (layout.decimal d) := by
  unfold decimal
  dsimp only
  split
  · exact looksDecimal_plain Nat.toDigits_ne_nil isDigit_of_mem_toDigits _
  · exact looksDecimal_scientific Nat.toDigits_ne_nil isDigit_of_mem_toDigits _

/-- A written decimal is read as it. -/
theorem decimal?_decimal (layout : Layout) (negative : Bool) (d : Decimal) :
    decimal? negative (layout.decimal d) = some (ofDecimal negative d.digits d.exponent) := by
  have value : Nat.ofDigitChars 10 (Nat.toDigits 10 d.digits) 0 = d.digits :=
    Nat.ofDigitChars_ten_toDigits
  unfold decimal
  dsimp only
  split
  · rw [decimal?_plain Nat.toDigits_ne_nil isDigit_of_mem_toDigits, value]
  · rw [decimal?_scientific Nat.toDigits_ne_nil isDigit_of_mem_toDigits, value]

/-- The text of a finite double: a sign, and what is read as the double. -/
theorem write_finite (layout : Layout) (negative : Bool) (rank : Fin rankBound) :
    ∃ text, layout.write (.finite negative rank) = sign negative ++ text ∧ LooksDecimal text ∧
      decimal? negative text = some (.finite negative rank) := by
  by_cases zero : rank.val = 0
  · have zeroDigit := isDigit_of_mem_zero
    refine ⟨plain ['0'] 1, ?_, looksDecimal_plain (List.cons_ne_nil '0' []) zeroDigit 1, ?_⟩
    · show sign negative ++ (if rank.val = 0 then _ else _) = _
      rw [if_pos zero]
      rfl
    · have none : ofDecimal negative 0 0 = .zero negative :=
        ofDecimal_of_le negative (d := ⟨0, 0⟩) (by simp [Decimal.num])
      have same : Binary64.zero negative = .finite negative rank :=
        congrArg (Binary64.finite negative) (Fin.ext zero.symm)
      rw [← same, ← none]
      exact decimal?_plain (List.cons_ne_nil '0' []) zeroDigit negative 0
  · refine ⟨layout.decimal (.shortest rank.val), ?_, looksDecimal_decimal layout _, ?_⟩
    · show sign negative ++ (if rank.val = 0 then _ else _) = _
      rw [if_neg zero]
    · rw [decimal?_decimal, ofDecimal_shortest]

/-- A decimal with a point or an exponent is no run of digits. -/
theorem exponent?_of_looksDecimal (negative : Bool) {text : List Char}
    (looks : LooksDecimal text) :
    exponent? (sign negative ++ text) = none := by
  have mixed : text.all Char.isDigit = false := by
    obtain ⟨c, member, marked⟩ := looks.marked
    rw [List.all_eq_false]
    refine ⟨c, member, ?_⟩
    rcases marked with rfl | rfl <;> decide
  obtain ⟨c, rest, rfl, digit⟩ := looks.head
  cases negative with
  | true =>
      show exponent? ('-' :: c :: rest) = none
      simp only [exponent?, mixed, Bool.not_false, Bool.or_true, if_true]
  | false =>
      show exponent? (c :: rest) = none
      rw [exponent?_of_head digit, mixed]
      rfl

/-- A finite double is written in the characters of decimals. -/
theorem isNumeralPart_of_mem_write (layout : Layout) (negative : Bool) (rank : Fin rankBound) :
    ∀ c ∈ layout.write (.finite negative rank), isNumeralPart c = true := by
  obtain ⟨text, written, looks, -⟩ := write_finite layout negative rank
  rw [written]
  intro c member
  rcases List.mem_append.mp member with minus | inside
  · cases negative with
    | true =>
        rw [List.mem_singleton.mp minus]
        rfl
    | false => exact absurd minus List.not_mem_nil
  · exact looks.parts c inside

/-- **A written double reads back.** -/
theorem read?_write {layout : Layout} (legible : layout.Legible) (value : Binary64) :
    read? (layout.write value) = some value := by
  cases value with
  | nan => exact legible.notANumber
  | infinite negative => exact legible.infinity negative
  | finite negative rank =>
      obtain ⟨text, written, looks, read⟩ := write_finite layout negative rank
      obtain ⟨c, rest, rfl, digit⟩ := looks.head
      rw [written, read?_sign negative digit, read]

end Layout

end LoxLexer.Numeral
