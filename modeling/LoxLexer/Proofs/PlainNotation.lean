/-
# LoxLexer.Proofs.PlainNotation -- which printed numbers are numerals

A number is printed with its shortest digits, and the notation is chosen on them: by the power
of ten of the first digit.  The language has no exponents, so only the plain notation is a
numeral (`run_of_isPlain`); with an exponent the text falls into a number, a name, an operator
and another number (`kinds_run_of_scientific`), and infinity is a name.

On doubles the choice is a comparison with two of them, those nearest to `10 ^ -4` and to
`10 ^ 16` (`IsPlain`).  That the digits decide the same is not clear at the edges: a decimal
below a power of ten may round to the double of the power, and then its first digit is one
place lower than that of the power.  It is so because rounding keeps the order of decimals
(`rank_le_of_value_le`) and each of the two powers is itself the shortest decimal of its double
(`shortest_rank_power`), which is what the printer finds for every numeral that rounds to it
(`isPlain_iff_leading`).

The main statement, `printed_number_scans_iff_plain`, is about the number tokens of any text.
-/
import LoxLexer.Proofs.Dump
import LoxLexer.Proofs.JsonGrammar
import LoxLexer.Proofs.NearestDouble

namespace LoxLexer

set_option autoImplicit false

namespace Numeral

open Decimal (unitsInOne shortest)

/-! ## Comparing doubles -/

namespace Binary64

/-- The value of a finite double. -/
def signed (negative : Bool) (rank : ℕ) : ℚ := if negative then -magnitude rank else magnitude rank

/-- A double is less than another, as numbers are; a NaN is not less than any and none is less
than it. -/
def Less : Binary64 → Binary64 → Prop
  | .finite negative rank, .finite otherNegative other =>
      signed negative rank < signed otherNegative other
  | .finite _ _, .infinite otherNegative => otherNegative = false
  | .infinite negative, .finite _ _ => negative = true
  | .infinite negative, .infinite otherNegative => negative = true ∧ otherNegative = false
  | .nan, _ => False
  | _, .nan => False

def AtMost (double other : Binary64) : Prop := double.Less other ∨ double.equals other = true

/-- The doubles that are written without an exponent: zero, and those from the double nearest
to `10 ^ -4` up to the one nearest to `10 ^ 16`, and not that one. -/
def IsPlain (double : Binary64) : Prop :=
  double.equals (.zero false) = true ∨
    ∃ low high, RoundsTo (10 ^ (-4 : ℤ)) low ∧ RoundsTo (10 ^ (16 : ℤ)) high ∧
      low.AtMost double ∧ double.Less high

end Binary64

/-! ## Rounding keeps the order -/

namespace Decimal

/-- The rank of the double that a decimal is read as. -/
def rank (d : Decimal) : ℕ := nearestRank d.num d.den

/-- **Rounding keeps the order of decimals.** -/
theorem rank_le_of_value_le {d other : Decimal} (ordered : d.value ≤ other.value) :
    d.rank ≤ other.rank := by
  by_contra above
  obtain ⟨low, -, -⟩ := (d.within_iff d.rank).mpr rfl
  have within := (other.within_iff other.rank).mpr rfl
  have here : (units other.rank : ℚ) ≤ units (d.rank - 1) := by
    exact_mod_cast units_le_of_le (by omega)
  have next : (units (other.rank + 1) : ℚ) ≤ units d.rank := by
    exact_mod_cast units_le_of_le (by omega)
  have counts : d.value * unitsInOne ≤ other.value * unitsInOne :=
    mul_le_mul_of_nonneg_right ordered unitsInOne_pos.le
  -- the intervals share at most an end, so the values are the same
  have same : d.value * unitsInOne = other.value * unitsInOne := by
    linarith [within.high]
  rw [← same, d.within_iff] at within
  exact above (Nat.le_of_eq within)

@[simp] theorem rank_shortest (rank : ℕ) : (shortest rank).rank = rank :=
  (nearestRank_eq_iff _ (den_pos _) rank).mpr ((readsBack_iff rank _).mp (readsBack_shortest rank))

/-- A decimal that is the shortest of its double parts the shortest decimals as its double
parts the doubles. -/
theorem value_le_shortest_iff {edge : Decimal} (fixed : shortest edge.rank = edge) (rank : ℕ) :
    edge.value ≤ (shortest rank).value ↔ edge.rank ≤ rank := by
  constructor
  · intro ordered
    have ranks := rank_le_of_value_le ordered
    rwa [rank_shortest] at ranks
  · intro ordered
    by_contra below
    have ranks := rank_le_of_value_le (not_le.mp below).le
    rw [rank_shortest] at ranks
    have same : rank = edge.rank := Nat.le_antisymm ranks ordered
    rw [same, fixed] at below
    exact below (le_refl _)

/-- A power of ten. -/
def power (exponent : ℤ) : Decimal := ⟨1, exponent⟩

@[simp] theorem value_power (exponent : ℤ) : (power exponent).value = 10 ^ exponent := by
  simp [power, value]

/-- How many digits a positive number has. -/
theorem exists_length_toDigits {number : ℕ} (positive : number ≠ 0) :
    ∃ count, (Nat.toDigits 10 number).length = count + 1 ∧
      10 ^ count ≤ number ∧ number < 10 ^ (count + 1) := by
  obtain ⟨count, length⟩ : ∃ count, (Nat.toDigits 10 number).length = count + 1 :=
    Nat.exists_eq_succ_of_ne_zero (List.length_pos_iff.mpr Nat.toDigits_ne_nil).ne'
  refine ⟨count, length, ?_, ?_⟩
  · rcases Nat.eq_zero_or_pos count with rfl | some
    · exact Nat.pos_of_ne_zero positive
    · rw [← Nat.not_lt, ← Nat.length_toDigits_le_iff (by decide) some]
      omega
  · exact (Nat.length_toDigits_le_iff (by decide) (Nat.succ_pos count)).mp length.le

/-- The power of ten of the first digit. -/
def leading (d : Decimal) : ℤ := (Nat.toDigits 10 d.digits).length + d.exponent - 1

/-- **The first digit of a decimal tells between which powers of ten it is.** -/
theorem value_power_le_iff {d : Decimal} (positive : d.digits ≠ 0) (exponent : ℤ) :
    (power exponent).value ≤ d.value ↔ exponent ≤ d.leading := by
  obtain ⟨count, length, many, few⟩ := exists_length_toDigits positive
  rw [value_power, value, leading, length]
  have unit : (0 : ℚ) < 10 ^ d.exponent := by positivity
  have split (count : ℕ) : (10 : ℚ) ^ (count + d.exponent) = 10 ^ count * 10 ^ d.exponent := by
    rw [zpow_add₀ (by norm_num), zpow_natCast]
  constructor
  · intro below
    by_contra above
    have order : ((count + 1 : ℕ) : ℤ) + d.exponent ≤ exponent := by omega
    have high : (10 : ℚ) ^ (((count + 1 : ℕ) : ℤ) + d.exponent) ≤ 10 ^ exponent :=
      zpow_le_zpow_right₀ (by norm_num) order
    have less : (d.digits : ℚ) * 10 ^ d.exponent < 10 ^ (count + 1) * 10 ^ d.exponent :=
      mul_lt_mul_of_pos_right (by exact_mod_cast few) unit
    rw [split] at high
    exact absurd below (not_le.mpr (lt_of_lt_of_le less high))
  · intro below
    have order : exponent ≤ (count : ℤ) + d.exponent := by omega
    calc (10 : ℚ) ^ exponent
        ≤ 10 ^ ((count : ℤ) + d.exponent) := zpow_le_zpow_right₀ (by norm_num) order
      _ = 10 ^ count * 10 ^ d.exponent := split count
      _ ≤ d.digits * 10 ^ d.exponent :=
          mul_le_mul_of_nonneg_right (by exact_mod_cast many) unit.le

/-- The two powers that part the notations are the shortest decimals of their doubles. -/
theorem shortest_rank_power :
    shortest (power (-4)).rank = power (-4) ∧ shortest (power 16).rank = power 16 := by
  decide +kernel

theorem rank_power_lt : (power (-4)).rank < rankBound ∧ (power 16).rank < rankBound := by
  decide +kernel

end Decimal

namespace Binary64

open Decimal

@[simp] theorem less_finite_iff (rank other : Fin rankBound) :
    (finite false rank).Less (finite false other) ↔ rank.val < other.val :=
  magnitude_lt_iff

@[simp] theorem atMost_finite_iff (rank other : Fin rankBound) :
    (finite false rank).AtMost (finite false other) ↔ rank.val ≤ other.val := by
  rw [AtMost, less_finite_iff, Nat.le_iff_lt_or_eq]
  simp [equals, Fin.ext_iff]

theorem ofDecimal_of_lt {d : Decimal} (bounded : d.rank < rankBound) :
    ofDecimal false d.digits d.exponent = finite false ⟨d.rank, bounded⟩ := by
  rw [ofDecimal_eq]
  exact dif_pos bounded

/-- The double nearest to a power of ten, if that is not too great. -/
theorem roundsTo_power_iff {exponent : ℤ} (bounded : (power exponent).rank < rankBound)
    (double : Binary64) :
    RoundsTo (10 ^ exponent) double ↔ double = finite false ⟨(power exponent).rank, bounded⟩ := by
  rw [← value_power, roundsTo_iff, ofDecimal_of_lt bounded]

/-- Zero is plain. -/
theorem isPlain_zero {rank : Fin rankBound} (none : rank.val = 0) :
    (finite false rank).IsPlain := by
  left
  simp [equals, zero, Fin.ext_iff, none]

/-- Between the two edges are the plain doubles that are not zero. -/
theorem isPlain_iff_of_nonzero {double : Binary64} (nonzero : double.equals (zero false) = false) :
    double.IsPlain ↔
      (finite false ⟨(power (-4)).rank, rank_power_lt.1⟩).AtMost double ∧
        double.Less (finite false ⟨(power 16).rank, rank_power_lt.2⟩) := by
  rw [IsPlain, nonzero]
  simp only [roundsTo_power_iff rank_power_lt.1, roundsTo_power_iff rank_power_lt.2]
  simp

theorem not_isPlain_infinite : ¬ (infinite false).IsPlain := by
  rw [isPlain_iff_of_nonzero rfl]
  rintro ⟨-, ⟨⟩⟩

/-- Of the positive doubles those are plain whose rank is between those of the two powers. -/
theorem isPlain_finite_iff {rank : Fin rankBound} (positive : rank.val ≠ 0) :
    (finite false rank).IsPlain ↔ (power (-4)).rank ≤ rank.val ∧ rank.val < (power 16).rank := by
  have nonzero : (finite false rank).equals (zero false) = false := by
    simp [equals, zero, Fin.ext_iff, positive]
  rw [isPlain_iff_of_nonzero nonzero, atMost_finite_iff, less_finite_iff]

theorem isPlain_lower_edge : (ofDecimal false 1 (-4)).IsPlain := by
  show (ofDecimal false (power (-4)).digits (power (-4)).exponent).IsPlain
  rw [ofDecimal_of_lt rank_power_lt.1, isPlain_finite_iff (by decide +kernel)]
  decide +kernel

theorem not_isPlain_upper_edge : ¬ (ofDecimal false 1 16).IsPlain := by
  show ¬ (ofDecimal false (power 16).digits (power 16).exponent).IsPlain
  rw [ofDecimal_of_lt rank_power_lt.2, isPlain_finite_iff (by decide +kernel)]
  exact fun inside => lt_irrefl _ inside.2

/-- **The notation changes at the doubles of two powers of ten**: the test on the digits is
one on the double. -/
theorem isPlain_iff_leading {rank : Fin rankBound} (positive : rank.val ≠ 0) :
    (finite false rank).IsPlain ↔
      -4 ≤ (shortest rank.val).leading ∧ (shortest rank.val).leading < 16 := by
  have digits := Json.digits_shortest_ne_zero positive
  rw [isPlain_finite_iff positive, ← value_le_shortest_iff shortest_rank_power.1, ← not_le,
    ← value_le_shortest_iff shortest_rank_power.2, value_power_le_iff digits,
    value_power_le_iff digits, not_le]

end Binary64

/-! ## The two notations -/

namespace Layout

open Binary64 (isDigit_of_mem_zeros_append isDigit_of_mem_take isDigit_of_mem_drop take_ne_nil)

section Digits

variable {digits : List Char} (named : digits ≠ []) (all : ∀ c ∈ digits, c.isDigit = true)

include named all

/-- Digits with a point are a numeral. -/
theorem exists_spells_plain (point : ℤ) : ∃ value, Spells (plain digits point) value := by
  obtain ⟨whole, fraction, written, ⟨some, wholeDigits⟩, more, fractionDigits⟩ :=
    exists_plain_eq named all point
  rw [written]
  exact ⟨_, .decimal some wholeDigits more fractionDigits⟩

/-- Digits with an exponent are two numerals with an `e` and a sign between them. -/
theorem exists_spells_scientific (exponent : ℤ) : ∃ mantissa mark power,
    scientific digits exponent = mantissa ++ 'e' :: mark :: power ∧ (mark = '-' ∨ mark = '+') ∧
      (∃ value, Spells mantissa value) ∧ ∃ value, Spells power value := by
  have size : ∀ c ∈ Nat.toDigits 10 exponent.natAbs, c.isDigit = true := isDigit_of_mem_toDigits
  have power : ∃ value, Spells (zeros (2 - (Nat.toDigits 10 exponent.natAbs).length) ++
      Nat.toDigits 10 exponent.natAbs) value :=
    ⟨_, .integer (List.append_ne_nil_of_right_ne_nil _ Nat.toDigits_ne_nil)
      (isDigit_of_mem_zeros_append size _)⟩
  have mark : (if exponent < 0 then '-' else '+') = '-' ∨
      (if exponent < 0 then '-' else '+') = '+' := by
    split
    · exact .inl rfl
    · exact .inr rfl
  have first := take_ne_nil named Nat.one_pos
  have firstDigits := isDigit_of_mem_take all 1
  unfold scientific
  dsimp only
  refine ⟨_, _, _, rfl, mark, ?_, power⟩
  split
  · rw [List.append_nil]
    exact ⟨_, .integer first firstDigits⟩
  · rename_i several
    refine ⟨_, .decimal first firstDigits ?_ (isDigit_of_mem_drop all 1)⟩
    rw [Ne, List.drop_eq_nil_iff]
    exact several

end Digits

/-- **A plain double is written as a numeral.** -/
theorem exists_spells_write {rank : Fin rankBound}
    (isPlain : (Binary64.finite false rank).IsPlain) :
    ∃ value, Spells (Literal.numbers.write (.finite false rank)) value := by
  show ∃ value, Spells (if rank.val = 0 then ['0', '.', '0'] else _) value
  split
  · exact ⟨_, .decimal (List.cons_ne_nil '0' []) isDigit_of_mem_zero (List.cons_ne_nil '0' [])
      isDigit_of_mem_zero⟩
  · rename_i positive
    have leading := (Binary64.isPlain_iff_leading positive).mp isPlain
    have notation_eq : Literal.numbers.decimal (shortest rank.val) =
        plain (Nat.toDigits 10 (shortest rank.val).digits) _ := if_pos leading
    rw [notation_eq]
    exact exists_spells_plain Nat.toDigits_ne_nil isDigit_of_mem_toDigits _

/-- Any other finite double is written with an exponent. -/
theorem write_scientific {rank : Fin rankBound}
    (scientific : ¬ (Binary64.finite false rank).IsPlain) : ∃ mantissa mark power,
    Literal.numbers.write (.finite false rank) = mantissa ++ 'e' :: mark :: power ∧
      (mark = '-' ∨ mark = '+') ∧
      (∃ value, Spells mantissa value) ∧ ∃ value, Spells power value := by
  have positive : rank.val ≠ 0 := fun none => scientific (Binary64.isPlain_zero none)
  rw [Binary64.isPlain_iff_leading positive] at scientific
  have written : Literal.numbers.write (.finite false rank) =
      Literal.numbers.decimal (shortest rank.val) := if_neg positive
  have notation_eq : Literal.numbers.decimal (shortest rank.val) =
      Layout.scientific (Nat.toDigits 10 (shortest rank.val).digits) _ := if_neg scientific
  rw [written, notation_eq]
  exact exists_spells_scientific Nat.toDigits_ne_nil isDigit_of_mem_toDigits _

end Layout

end Numeral

open Numeral

/-! ## Reading printed numbers -/

/-- A numeral is read up to its end, if neither a digit nor a point follows. -/
theorem Numeral.Spells.longest {text after : List Char} {value : ℚ} (spells : Spells text value)
    (stops : NoMore Char.isDigit after) (pointless : NoMore (· = '.') after) :
    Longest ⟨text, .token .number (.number (Binary64.ofNumeral text))⟩ after := by
  cases spells with
  | integer named all =>
      refine .integer named all stops ?_
      rintro d rest rfl
      cases pointless '.' rfl
  | decimal named wholeDigits some fractionDigits =>
      exact .decimal named wholeDigits some fractionDigits stops

theorem Numeral.Spells.newline_notMem {text : List Char} {value : ℚ}
    (spells : Spells text value) : '\n' ∉ text := by
  intro member
  cases spells with
  | integer named all => cases all '\n' member
  | decimal named wholeDigits some fractionDigits =>
      rcases List.mem_append.mp member with inside | behind
      · cases wholeDigits '\n' inside
      rcases List.mem_cons.mp behind with point | inside
      · cases point
      · cases fractionDigits '\n' inside

variable {Sink Other : Type} [ReportSink Sink] [ReportSink Other]

/-- A numeral alone is one number token. -/
theorem run_of_numeral (sink : Sink) {text : List Char} {value : ℚ} (spells : Spells text value) :
    let run := (Lexer.ofText text sink).run
    run.tokens.toList =
      [⟨.number, String.ofList text, .number (Binary64.ofNumeral text), 1⟩, .endOfInput 1] ∧
      run.sink = sink ∧ run.complaints = 0 := by
  have cutting := Cutting.cons
    (spells.longest (noMore_nil _) (noMore_nil _)) .nil
  have single : lineAfter text = 1 := by
    rw [lineAfter, List.count_eq_zero.mpr spells.newline_notMem]
  rw [List.append_nil] at cutting
  refine ⟨?_, ?_, ?_⟩
  · rw [tokens_run_of_cutting cutting]
    simp [finds, Piece.find?, Find.token?, single]
  · rw [sink_run_of_cutting cutting]
    rfl
  · rw [complaints_run_of_cutting cutting]
    rfl

/-- With an exponent a number falls into two, with a name and an operator between them. -/
theorem kinds_run_of_scientific (sink : Sink) {mantissa power : List Char} {mark : Char}
    {value size : ℚ} (front : Spells mantissa value) (marked : mark = '-' ∨ mark = '+')
    (back : Spells power size) :
    ∃ kind ∈ [Kind.minus, .plus],
      (Lexer.ofText (mantissa ++ 'e' :: mark :: power) sink).run.tokens.toList.map Token.kind =
        [.number, .identifier, kind, .number, .endOfInput] := by
  obtain ⟨kind, signed, listed⟩ :
      ∃ kind ∈ [Kind.minus, .plus], (mark, kind) ∈ marks := by
    rcases marked with rfl | rfl
    · exact ⟨.minus, by decide, by decide⟩
    · exact ⟨.plus, by decide, by decide⟩
  have number : Longest _ ('e' :: mark :: power) := front.longest
    (noMore_cons.mpr rfl) (noMore_cons.mpr rfl)
  have name : Longest ⟨['e'], .token .identifier .none⟩ (mark :: power) := by
    refine .identifier (.inl rfl) (List.forall_mem_nil _) ?_ ?_
    · rw [noMore_cons]
      rcases marked with rfl | rfl <;> rfl
    · intro word
      cases word <;> decide
  have last : Longest _ [] := back.longest (noMore_nil _) (noMore_nil _)
  have ends := Cutting.cons last .nil
  rw [List.append_nil] at ends
  have cutting := Cutting.cons number (.cons name (.cons (.mark listed) ends))
  refine ⟨kind, signed, ?_⟩
  rw [tokens_run_of_cutting cutting]
  rfl

/-- Infinity is written as a name. -/
theorem kinds_run_of_infinite (sink : Sink) :
    (Lexer.ofText (Literal.numbers.write (.infinite false)) sink).run.tokens.toList.map
      Token.kind = [.identifier, .endOfInput] := by
  have name : Longest ⟨['i', 'n', 'f'], .token .identifier .none⟩ [] := by
    refine .identifier (.inl rfl) (List.all_eq_true.mp rfl) (noMore_nil _) ?_
    intro word
    cases word <;> decide
  have cutting := Cutting.cons name .nil
  have written : Literal.numbers.write (.infinite false) = ['i', 'n', 'f'] ++ [] := by decide
  rw [written, tokens_run_of_cutting cutting]
  rfl

/-- **A plain number is scanned back from its text**, as its only token. -/
theorem run_of_isPlain (sink : Sink) {rank : Fin rankBound}
    (isPlain : (Binary64.finite false rank).IsPlain) :
    let written := Literal.numbers.write (.finite false rank)
    let run := (Lexer.ofText written sink).run
    run.tokens.toList =
      [⟨.number, String.ofList written, .number (.finite false rank), 1⟩, .endOfInput 1] ∧
      run.sink = sink ∧ run.complaints = 0 := by
  intro written
  obtain ⟨value, spells⟩ := Layout.exists_spells_write isPlain
  -- what the lexer reads is what the conversion reads back
  have read := spells.read?_eq
  rw [Layout.read?_write legible_numbers] at read
  have run := run_of_numeral sink spells
  rwa [← Option.some.inj read] at run

/-- **No other number is scanned back from its text**: there are two numbers in it or none. -/
theorem count_number_run_of_not_isPlain (sink : Sink) {double : Binary64}
    (unsigned : double = .infinite false ∨ ∃ rank, double = .finite false rank)
    (scientific : ¬ double.IsPlain) :
    ((Lexer.ofText (Literal.numbers.write double) sink).run.tokens.toList.map Token.kind).count
      .number ≠ 1 := by
  rcases unsigned with rfl | ⟨rank, rfl⟩
  · rw [kinds_run_of_infinite]
    decide
  · obtain ⟨mantissa, mark, power, written, marked, ⟨value, front⟩, size, back⟩ :=
      Layout.write_scientific scientific
    obtain ⟨kind, signed, kinds⟩ := kinds_run_of_scientific sink front marked back
    rw [written, kinds]
    have signs : ∀ kind ∈ [Kind.minus, .plus],
        [Kind.number, .identifier, kind, .number, .endOfInput].count .number = 2 := by decide
    rw [signs kind signed]
    decide

/-! ## Number tokens -/

/-- The text of a number is that of its literal between angle brackets. -/
theorem Token.text_of_number {token : Token} {double : Binary64} (number : token.kind = .number)
    (literal : token.literal = .number double) :
    token.text = "<NUMBER:" ++ String.ofList (Literal.numbers.write double) ++ ">" := by
  have name : token.nameText = "" := by
    rw [nameText, number]
    rfl
  rw [Token.text, name, number, literal, Literal.text, String.append_empty,
    ← String.append_assoc]
  rfl

/-- **A printed number is scanned back if and only if it is in plain notation.**  What is
printed of a number token always reads back to its double, and JSON has the same text if the
double is finite.  Scanned, the text is one number token with the same literal if the double
is zero or from the double nearest to `10 ^ -4` up to below the one nearest to `10 ^ 16`; of
any other double it is not a single number. -/
theorem printed_number_scans_iff_plain (sink : Sink) (other : Other) (text : List Char) :
    ∀ token ∈ (Lexer.ofText text sink).run.tokens.toList, token.kind = .number →
      ∃ double, token.literal = .number double ∧
        let written := Literal.numbers.write double
        let again := (Lexer.ofText written other).run
        token.text = "<NUMBER:" ++ String.ofList written ++ ">" ∧
        ((∃ negative rank, double = .finite negative rank) →
          ∀ indent level, Json.printAt indent level token.literal.toJson = written) ∧
        Binary64.read? written = some double ∧
        (double.IsPlain →
          again.tokens.toList =
            [⟨.number, String.ofList written, .number double, 1⟩, .endOfInput 1] ∧
          again.sink = other ∧ again.complaints = 0) ∧
        (¬ double.IsPlain → (again.tokens.toList.map Token.kind).count .number ≠ 1) := by
  intro token member number
  obtain ⟨literal, value, spells⟩ := (isFound_of_mem_run sink member).number number
  have unsigned := ((spells.roundsTo_iff _).mpr rfl).infinite_or_finite
  refine ⟨_, literal, Token.text_of_number number literal, ?_,
    Layout.read?_write legible_numbers _, ?_, count_number_run_of_not_isPlain other unsigned⟩
  · rintro ⟨negative, rank, finite⟩ indent level
    rw [literal, finite]
    rfl
  · intro isPlain
    rcases unsigned with infinite | ⟨rank, finite⟩
    · rw [infinite] at isPlain
      exact absurd isPlain Binary64.not_isPlain_infinite
    · rw [finite] at isPlain ⊢
      exact run_of_isPlain other isPlain

/-- The lower edge is plain.  A numeral below the upper edge may be nearest to it, and the
double of the upper edge is not plain. -/
theorem printed_number_scans_iff_plain_of_edges :
    let low : Token := ⟨.number, "0.0001", .number (Binary64.ofDecimal false 1 (-4)), 1⟩
    let high : Token :=
      ⟨.number, "9999999999999999", .number (Binary64.ofDecimal false 1 16), 1⟩
    let run := (Lexer.ofText "0.0001 9999999999999999".toList Recorder.empty).run
    low ∈ run.tokens.toList ∧ high ∈ run.tokens.toList ∧
      low.text = "<NUMBER:0.0001>" ∧ high.text = "<NUMBER:1e+16>" ∧
      (Lexer.ofText "0.0001".toList Recorder.empty).run.tokens.toList = [low, .endOfInput 1] ∧
      ((Lexer.ofText "1e+16".toList Recorder.empty).run.tokens.toList.map Token.kind).count
        .number ≠ 1 := by
  intro low high run
  have first : low ∈ run.tokens.toList := by decide +kernel
  have second : high ∈ run.tokens.toList := by decide +kernel
  have lowWritten : Literal.numbers.write (Binary64.ofDecimal false 1 (-4)) = "0.0001".toList := by
    decide +kernel
  have highWritten : Literal.numbers.write (Binary64.ofDecimal false 1 16) = "1e+16".toList := by
    decide +kernel
  obtain ⟨double, same, lowText, -, -, plain, -⟩ :=
    printed_number_scans_iff_plain Recorder.empty Recorder.empty _ low first rfl
  rw [← Literal.number.inj same, lowWritten] at lowText plain
  obtain ⟨double, same, highText, -, -, -, others⟩ :=
    printed_number_scans_iff_plain Recorder.empty Recorder.empty _ high second rfl
  rw [← Literal.number.inj same, highWritten] at highText others
  exact ⟨first, second, lowText, highText, (plain Binary64.isPlain_lower_edge).1,
    others Binary64.not_isPlain_upper_edge⟩

end LoxLexer
