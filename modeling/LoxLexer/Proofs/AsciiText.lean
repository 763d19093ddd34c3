/-
# LoxLexer.Proofs.AsciiText -- texts without controls

Digits of any base up to sixteen, and so escapes and numbers, are made of the
characters from space to tilde (`shown_of_mem_toDigits`, `shown_of_mem_hex`).  A name
between quotes may hold characters of any script, but never the end of a line
(`quoted_fits_line`), whatever the name holds.
-/
import LoxLexer.Text.Quoted

namespace LoxLexer.Text

set_option autoImplicit false

/-! ## Printable ASCII -/

/-- The printable characters of ASCII, from space to tilde. -/
def Shown (c : Char) : Prop := ' ' ≤ c ∧ c ≤ '~'

instance (c : Char) : Decidable (Shown c) := inferInstanceAs (Decidable (_ ∧ _))

theorem Shown.ne_newline {c : Char} (shown : Shown c) : c ≠ '\n' := by
  rintro rfl
  exact absurd shown (by decide)

theorem shown_digitChar {digit : Nat} (small : digit < 16) : Shown (Nat.digitChar digit) := by
  have all : ∀ digit < 16, Shown (Nat.digitChar digit) := by decide
  exact all digit small

/-- Every digit of a number is written by a character for less than the base. -/
theorem exists_of_mem_toDigits {base : Nat} (large : 1 < base) {number : Nat} {c : Char}
    (member : c ∈ Nat.toDigits base number) : ∃ digit < base, c = Nat.digitChar digit := by
  induction number using Nat.strongRecOn with
  | ind number ih =>
      by_cases single : number < base
      · rw [Nat.toDigits_of_lt_base single, List.mem_singleton] at member
        exact ⟨number, single, member⟩
      · have smaller : number / base < number := Nat.div_lt_self (by omega) large
        rw [Nat.toDigits_of_base_le large (by omega), List.mem_append] at member
        rcases member with above | last
        · exact ih (number / base) smaller above
        · exact ⟨number % base, Nat.mod_lt number (by omega), List.mem_singleton.mp last⟩

theorem shown_of_mem_toDigits {base : Nat} (large : 1 < base) (small : base ≤ 16) {number : Nat}
    {c : Char} (member : c ∈ Nat.toDigits base number) : Shown c := by
  obtain ⟨digit, less, rfl⟩ := exists_of_mem_toDigits large member
  exact shown_digitChar (by omega)

theorem shown_of_mem_hex {width number : Nat} {c : Char} (member : c ∈ hex width number) :
    Shown c := by
  rw [hex, List.mem_append] at member
  rcases member with zero | digit
  · rw [List.eq_of_mem_replicate zero]
    decide
  · exact shown_of_mem_toDigits (by decide) (by decide) digit

/-! ## Texts on one line -/

/-- A text without the end of a line in it. -/
def FitsLine (text : String) : Prop := '\n' ∉ text.toList

instance (text : String) : Decidable (FitsLine text) := inferInstanceAs (Decidable (¬ _))

theorem FitsLine.append {first second : String} (one : FitsLine first) (other : FitsLine second) :
    FitsLine (first ++ second) := by
  rw [FitsLine, String.toList_append, List.mem_append]
  exact fun member => member.elim one other

theorem fitsLine_of_shown {text : List Char} (shown : ∀ c ∈ text, Shown c) :
    FitsLine (String.ofList text) := by
  rw [FitsLine, String.toList_ofList]
  exact fun member => (shown '\n' member).ne_newline rfl

/-- A text that is spelled out is looked through. -/
theorem fitsLine_of_all {text : List Char} (within : text.all (· ≠ '\n') = true) :
    FitsLine (String.ofList text) := by
  rw [FitsLine, String.toList_ofList]
  intro member
  have other := List.all_eq_true.mp within '\n' member
  exact absurd rfl (of_decide_eq_true other)

theorem toString_fits_line (number : Nat) : FitsLine (toString number) := by
  rw [Nat.toString_eq_ofList_toDigits]
  exact fitsLine_of_shown fun c => shown_of_mem_toDigits (by decide) (by decide)

/-- Between quotes the end of a line is written by its letter, and every other escape is
of printable characters. -/
theorem newline_notMem_quotedChar {quote : Char} (other : quote ≠ '\n') (c : Char) :
    '\n' ∉ quotedChar quote c := by
  have escape {letter : Char} (plain : letter ≠ '\n') (width : Nat) :
      '\n' ∉ '\\' :: letter :: hex width c.toNat := by
    simp only [List.mem_cons, not_or]
    exact ⟨by decide, plain.symm, fun digit => (shown_of_mem_hex digit).ne_newline rfl⟩
  unfold quotedChar
  split
  · rename_i marked
    rcases marked with rfl | rfl
    · simpa using other.symm
    · decide
  split
  · decide
  split
  · decide
  rename_i notEnd
  split
  · decide
  split
  · simpa using Ne.symm notEnd
  split
  · exact escape (by decide) 2
  split
  · exact escape (by decide) 4
  · exact escape (by decide) 8

/-- **A quoted name fits a line.** -/
theorem quoted_fits_line (text : String) : FitsLine (quoted text) := by
  have quote : quoteFor text.toList ≠ '\n' := by
    unfold quoteFor
    split <;> decide
  rw [FitsLine, quoted, String.toList_ofList, List.mem_append, List.mem_cons, List.mem_flatMap,
    List.mem_singleton]
  rintro ((start | ⟨c, _, inside⟩) | last)
  · exact quote start.symm
  · exact newline_notMem_quotedChar quote c inside
  · exact quote last.symm

end LoxLexer.Text
