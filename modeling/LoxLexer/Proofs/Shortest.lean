/-
# LoxLexer.Proofs.Shortest -- the decimals of a double read back

A decimal is a quotient in units (`Decimal.num`, `Decimal.den`), and to read it is to
round that quotient (`ofDecimal_eq`).  The search for the shortest decimal tests, in half
units, whether the quotient lies in the interval of the double (`readsBack_iff`), so what it
gives reads back as the double (`ofDecimal_shortest`); so does the exact value that stands
in if the search fails.

Reading settles exponents beyond any double without their powers of ten
(`scaled_eq_ofDecimal`).
-/
import LoxLexer.Numeral.Reading
import LoxLexer.Numeral.Decimal
import LoxLexer.Proofs.Rounding

namespace LoxLexer.Numeral

set_option autoImplicit false

namespace Decimal

/-! ## A decimal as a quotient -/

/-- How many units, each the least positive double, make one. -/
def unitsInOne : Nat := Nat.pow 2 1074

/-- The numerator of a decimal in units. -/
def num (d : Decimal) : Nat := d.digits * Nat.pow 10 d.exponent.toNat * unitsInOne

/-- The denominator of a decimal. -/
def den (d : Decimal) : Nat := Nat.pow 10 (-d.exponent).toNat

theorem den_pos (d : Decimal) : 0 < d.den := Nat.pow_pos (by decide)

/-- A decimal is a whole number or more. -/
def AtLeast (bound : Nat) (d : Decimal) : Prop :=
  bound * d.den ≤ d.digits * Nat.pow 10 d.exponent.toNat

/-- The decimal that a numeral, `digits` or `digits.digits`, spells. -/
def ofNumeral (text : List Char) : Decimal :=
  let fraction := (text.dropWhile Char.isDigit).drop 1
  ⟨Nat.ofDigitChars 10 (text.takeWhile Char.isDigit ++ fraction) 0, -fraction.length⟩

/-- Two decimals are the same number. -/
def Same (first second : Decimal) : Prop := first.num * second.den = second.num * first.den

/-- A zero at the end of the digits is one in the exponent. -/
theorem same_of_zero (digits : Nat) (exponent : Int) :
    Same ⟨digits * 10, exponent⟩ ⟨digits, exponent + 1⟩ := by
  unfold Same num den
  dsimp only
  generalize unitsInOne = unit
  cases exponent with
  | ofNat up =>
      have sum : (Int.ofNat up + 1).toNat = up + 1 := rfl
      have none : (-Int.ofNat up).toNat = 0 := by simp
      have none' : (-(Int.ofNat up + 1)).toNat = 0 := by
        simp only [Int.ofNat_eq_natCast]
        omega
      have same : (Int.ofNat up).toNat = up := rfl
      rw [sum, none, none', same]
      show digits * 10 * Nat.pow 10 up * unit * 1 = digits * (Nat.pow 10 up * 10) * unit * 1
      rw [Nat.mul_assoc digits, Nat.mul_comm 10]
  | negSucc down =>
      have down' : (-Int.negSucc down).toNat = down + 1 := rfl
      have less : (-(Int.negSucc down + 1)).toNat = down := by omega
      have none : (Int.negSucc down).toNat = 0 := rfl
      have none' : (Int.negSucc down + 1).toNat = 0 := by omega
      rw [down', less, none, none']
      show digits * 10 * 1 * unit * Nat.pow 10 down = digits * 1 * unit * (Nat.pow 10 down * 10)
      rw [Nat.mul_one, Nat.mul_one, Nat.mul_right_comm digits 10, Nat.mul_assoc (digits * unit),
        Nat.mul_comm 10]

/-- A unit has two half units. -/
theorem halfUnits_eq : Nat.pow 2 1075 = unitsInOne * 2 := by decide +kernel

/-- The test of the search is whether the quotient lies in the interval of the rank. -/
theorem readsBack_iff (rank : Nat) (d : Decimal) :
    readsBack rank d = true ↔ Rounds d.num d.den rank := by
  have twice : d.scaled = 2 * d.num := by
    rw [scaled, num, halfUnits_eq, ← Nat.mul_assoc, Nat.mul_comm]
  unfold readsBack Rounds
  rw [twice]
  show (if _ then decide ((units (rank - 1) + units rank) * d.den ≤ 2 * d.num) &&
      decide (2 * d.num ≤ (units rank + units (rank + 1)) * d.den)
    else decide ((units (rank - 1) + units rank) * d.den < 2 * d.num) &&
      decide (2 * d.num < (units rank + units (rank + 1)) * d.den)) = true ↔ _
  split
  · rename_i even
    simp only [Bool.and_eq_true, decide_eq_true_eq]
    refine ⟨fun within => ⟨within.1, within.2, fun odd => absurd odd (by omega)⟩,
      fun rounds => ⟨rounds.1, rounds.2.1⟩⟩
  · rename_i odd
    simp only [Bool.and_eq_true, decide_eq_true_eq]
    refine ⟨fun within => ⟨Nat.le_of_lt within.1, Nat.le_of_lt within.2, fun _ => within⟩,
      fun rounds => rounds.2.2 (by omega)⟩

theorem readsBack_of_same {rank : Nat} {d other : Decimal} (same : Same d other)
    (back : readsBack rank d = true) : readsBack rank other = true := by
  rw [readsBack_iff] at back ⊢
  exact back.congr d.den_pos other.den_pos same

/-! ## The search -/

theorem readsBack_trim {rank : Nat} {d : Decimal} (back : readsBack rank d = true) :
    readsBack rank d.trim = true := by
  fun_induction trim d with
  | case1 d shrinks ih =>
      apply ih
      refine readsBack_of_same ?_ back
      have whole : d.digits / 10 * 10 = d.digits := by omega
      have same := same_of_zero (d.digits / 10) d.exponent
      rwa [whole] at same
  | case2 => exact back

theorem readsBack_onGrid? {rank : Nat} {exponent : Int} {d : Decimal}
    (found : onGrid? rank exponent = some d) : readsBack rank d = true := by
  have nearer_eq : nearer rank exponent = below rank exponent ∨
      nearer rank exponent = above rank exponent := by
    unfold nearer
    dsimp only
    split
    · exact .inl rfl
    split
    · exact .inr rfl
    split
    · exact .inl rfl
    · exact .inr rfl
  unfold onGrid? at found
  dsimp only at found
  split at found
  · rename_i low
    split at found
    · rename_i high
      cases found
      rcases nearer_eq with same | same
      · rw [same]
        exact low
      · rw [same]
        exact high
    · cases found
      exact low
  · split at found
    · rename_i high
      cases found
      exact high
    · cases found

/-- The exact value lies in the interval, as the magnitudes grow. -/
theorem readsBack_exact (rank : Nat) : readsBack rank (exact rank) = true := by
  have value : (exact rank).num = units rank * (exact rank).den := by
    obtain ⟨fives, fivesEq⟩ : ∃ fives, Nat.pow 5 1074 = fives := ⟨_, rfl⟩
    have ten : fives * unitsInOne = (exact rank).den := by
      subst fivesEq
      unfold den exact
      dsimp only
      decide +kernel
    have digits : (exact rank).digits = units rank * fives := by
      rw [exact, fivesEq]
    have up : Nat.pow 10 (exact rank).exponent.toNat = 1 := rfl
    rw [num, digits, up, ← ten, Nat.mul_one, Nat.mul_assoc]
  rw [readsBack_iff, Rounds, value]
  have positive := (exact rank).den_pos
  generalize (exact rank).den = den at positive ⊢
  have above : units rank * den < units (rank + 1) * den :=
    Nat.mul_lt_mul_of_pos_right (units_lt_succ rank) positive
  have below : units (rank - 1) * den ≤ units rank * den :=
    Nat.mul_le_mul_right den (units_le_of_le (by omega))
  rw [Nat.add_mul, Nat.add_mul]
  refine ⟨by omega, by omega, fun odd => ⟨?_, by omega⟩⟩
  have less : units (rank - 1) * den < units rank * den := by
    have step := units_lt_succ (rank - 1)
    rw [Nat.sub_add_cancel (by omega)] at step
    exact Nat.mul_lt_mul_of_pos_right step positive
  omega

/-- **The shortest decimal of a double reads back.** -/
@[simp] theorem readsBack_shortest (rank : Nat) : readsBack rank (shortest rank) = true := by
  unfold shortest
  apply readsBack_trim
  generalize (List.range 17).map _ = grids
  cases found : grids.findSome? (onGrid? rank) with
  | none => exact readsBack_exact rank
  | some d =>
      obtain ⟨exponent, -, onGrid⟩ := List.exists_of_findSome?_eq_some found
      exact readsBack_onGrid? onGrid

end Decimal

/-! ## Reading decimals -/

namespace Binary64

open Decimal

theorem nearest_eq (negative : Bool) (num den : Nat) :
    nearest negative num den = ofRank negative (nearestRank (num * unitsInOne) den) := by
  have power : Nat.pow 2 1074 = unitsInOne := by decide +kernel
  rw [nearest, power]

/-- To read a decimal is to round it as a quotient. -/
theorem ofDecimal_eq (negative : Bool) (d : Decimal) :
    ofDecimal negative d.digits d.exponent = ofRank negative (nearestRank d.num d.den) := by
  obtain ⟨digits, exponent⟩ := d
  cases exponent with
  | ofNat up =>
      have one : (Decimal.mk digits (.ofNat up)).den = 1 := by
        show Nat.pow 10 (-Int.ofNat up).toNat = 1
        rw [Int.ofNat_eq_natCast, Int.toNat_neg_natCast]
      rw [ofDecimal, nearest_eq, one]
      rfl
  | negSucc down =>
      have one : Nat.pow 10 (Int.negSucc down).toNat = 1 := rfl
      rw [ofDecimal, nearest_eq, num, one, Nat.mul_one]
      rfl

theorem ofDecimal_of_same (negative : Bool) {d other : Decimal} (same : Same d other) :
    ofDecimal negative d.digits d.exponent = ofDecimal negative other.digits other.exponent := by
  rw [ofDecimal_eq, ofDecimal_eq, nearestRank_congr d.den_pos other.den_pos same]

/-- **The shortest decimal of a double reads back as the double**, with either sign. -/
@[simp] theorem ofDecimal_shortest (negative : Bool) (rank : Fin rankBound) :
    ofDecimal negative (shortest rank.val).digits (shortest rank.val).exponent =
      .finite negative rank := by
  have back := (readsBack_iff rank.val _).mp (readsBack_shortest rank.val)
  rw [ofDecimal_eq, (nearestRank_eq_iff _ (den_pos _) rank.val).mpr back, ofRank,
    dif_pos rank.isLt]

/-! ## Numbers beyond every double -/

/-- Half a step above the greatest double. -/
def overflow : Nat := Nat.pow 2 1024 - Nat.pow 2 970

/-- Half the way from the greatest finite magnitude to the next one, twice. -/
theorem units_overflow : units (rankBound - 1) + units rankBound = 2 * unitsInOne * overflow := by
  decide +kernel

/-- **A decimal overflows from half a step above the greatest double on.** -/
theorem ofDecimal_eq_infinite_iff (negative : Bool) (d : Decimal) :
    ofDecimal negative d.digits d.exponent = .infinite negative ↔ d.AtLeast overflow := by
  have beyond : ofRank negative (nearestRank d.num d.den) = .infinite negative ↔
      rankBound ≤ nearestRank d.num d.den := by
    unfold ofRank
    split <;> simp <;> omega
  have unit : 0 < 2 * unitsInOne := by decide +kernel
  have num : 2 * d.num = 2 * unitsInOne * (d.digits * Nat.pow 10 d.exponent.toNat) := by
    rw [Decimal.num, Nat.mul_comm _ unitsInOne, Nat.mul_assoc]
  rw [ofDecimal_eq, beyond, le_nearestRank_iff d.num d.den_pos (by decide +kernel),
    units_overflow, num, Nat.mul_assoc (2 * unitsInOne)]
  exact Nat.mul_le_mul_left_iff unit

/-- A numeral denotes the double nearest to the decimal that it spells. -/
theorem ofNumeral_eq (text : List Char) :
    ofNumeral text = ofDecimal false (Decimal.ofNumeral text).digits
      (Decimal.ofNumeral text).exponent := rfl

/-! ## Exponents beyond any double -/

/-- What lies in the interval of zero is zero. -/
theorem ofDecimal_of_le (negative : Bool) {d : Decimal} (small : 2 * d.num ≤ d.den) :
    ofDecimal negative d.digits d.exponent = zero negative := by
  have none : units 0 = 0 := rfl
  have one : units 1 = 1 := rfl
  have rounds : Rounds d.num d.den 0 := by
    unfold Rounds
    rw [none, one, Nat.zero_add, Nat.zero_add, Nat.zero_mul, Nat.one_mul]
    exact ⟨Nat.zero_le _, small, fun odd => absurd odd (by decide)⟩
  rw [ofDecimal_eq, (nearestRank_eq_iff _ d.den_pos 0).mpr rounds, ofRank, dif_pos (by decide)]
  rfl

/-- From `10 ^ 401` up every number is infinite. -/
theorem ofDecimal_of_large (negative : Bool) {digits : Nat} (positive : digits ≠ 0)
    {exponent : Int} (large : 400 < exponent) :
    ofDecimal negative digits exponent = .infinite negative := by
  have one : (Decimal.mk digits exponent).den = 1 := by
    have none : (-exponent).toNat = 0 := by omega
    rw [den]
    dsimp only
    rw [none]
  have rounds := rounds_nearestRank (Decimal.mk digits exponent).num
    (Decimal.mk digits exponent).den_pos
  have read := ofDecimal_eq negative ⟨digits, exponent⟩
  rw [one] at rounds read
  dsimp only at read
  rw [read, ofRank, dif_neg]
  intro finite
  have high := rounds.2.1
  have here := units_le_of_le (Nat.le_of_lt finite)
  have next : units (nearestRank (Decimal.mk digits exponent).num 1 + 1) ≤ units rankBound :=
    units_le_of_le finite
  obtain ⟨depth, wide, deep⟩ :
      ∃ depth, units rankBound < Nat.pow 10 depth * unitsInOne ∧ depth ≤ exponent.toNat :=
    ⟨401, by decide +kernel, by omega⟩
  have powers : Nat.pow 10 depth ≤ digits * Nat.pow 10 exponent.toNat :=
    Nat.le_trans (Nat.pow_le_pow_right (by decide) deep)
      (Nat.le_mul_of_pos_left _ (Nat.pos_of_ne_zero positive))
  have beyond : units rankBound < (Decimal.mk digits exponent).num :=
    Nat.lt_of_lt_of_le wide (Nat.mul_le_mul_right unitsInOne powers)
  rw [Nat.mul_one] at high
  omega

/-- Below `10 ^ -400` every number rounds to zero. -/
theorem ofDecimal_of_small (negative : Bool) {digits : Nat} {exponent : Int}
    (small : exponent + (Nat.toDigits 10 digits).length < -400) :
    ofDecimal negative digits exponent = zero negative := by
  have few : digits < Nat.pow 10 (Nat.toDigits 10 digits).length :=
    (Nat.length_toDigits_le_iff (by decide)
      (List.length_pos_iff.mpr Nat.toDigits_ne_nil)).mp (Nat.le_refl _)
  generalize (Nat.toDigits 10 digits).length = length at small few
  have one : Nat.pow 10 exponent.toNat = 1 := by
    have none : exponent.toNat = 0 := by omega
    rw [none]
  obtain ⟨depth, narrow, deep⟩ :
      ∃ depth, unitsInOne * 2 ≤ Nat.pow 10 depth ∧ length + depth ≤ (-exponent).toNat :=
    ⟨401, by decide +kernel, by omega⟩
  apply ofDecimal_of_le negative (d := ⟨digits, exponent⟩)
  rw [num, den]
  dsimp only
  rw [one, Nat.mul_one]
  calc 2 * (digits * unitsInOne)
      = digits * (unitsInOne * 2) := by rw [Nat.mul_comm, Nat.mul_assoc]
    _ ≤ Nat.pow 10 length * Nat.pow 10 depth := Nat.mul_le_mul (Nat.le_of_lt few) narrow
    _ = Nat.pow 10 (length + depth) := (Nat.pow_add 10 length depth).symm
    _ ≤ Nat.pow 10 (-exponent).toNat := Nat.pow_le_pow_right (by decide) deep

/-- **The exponents that are settled without a power of ten are settled rightly.** -/
theorem scaled_eq_ofDecimal (negative : Bool) (digits : Nat) (exponent : Int) :
    scaled negative digits exponent = ofDecimal negative digits exponent := by
  unfold scaled
  split
  · rename_i none
    have least : 2 * (Decimal.mk 0 exponent).num ≤ (Decimal.mk 0 exponent).den := by
      rw [num, Nat.zero_mul, Nat.zero_mul]
      exact Nat.zero_le _
    rw [none]
    exact (ofDecimal_of_le negative least).symm
  · rename_i positive
    split
    · rename_i large
      exact (ofDecimal_of_large negative positive large).symm
    split
    · rename_i small
      exact (ofDecimal_of_small negative small).symm
    · rfl

end Binary64

end LoxLexer.Numeral
