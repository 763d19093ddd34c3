/-
# LoxLexer.Proofs.NearestDouble -- number literals are the nearest doubles

The rule of the format is stated on rational numbers: a finite magnitude is a significand
of at most 53 bits times a power of two from `2 ^ -1074` to `2 ^ 971` (`InFormat`), and a
value rounds to the magnitude that no other one is nearer to, of two as near the one with an
even significand; from half a step above the greatest magnitude on it rounds to infinity
(`RoundsTo`).  The significand and the exponent of a double are those that the two fields of
its encoding give, of which its rank is made.

The intervals of `Rounding` are this rule in whole numbers of units (`nearest_iff_within`):
between two neighbours nothing of the format lies, so only neighbours compete, and the tie
with one of them is an end of the interval.  So the double of a decimal is the one and the
only one that the rule names (`roundsTo_iff`).

The main statement, `run_rounds_numbers`, is about the number tokens of any text: of such a
token the lexeme alone is read, it is always a numeral, and its literal is the double that
the value of the numeral rounds to.
-/
import LoxLexer.Proofs.NumeralText
import LoxLexer.Proofs.Respelling
import Mathlib.Algebra.Order.Field.Power
import Mathlib.Algebra.Order.Field.Rat
import Mathlib.Tactic.FieldSimp
import Mathlib.Tactic.Linarith
import Mathlib.Tactic.NormNum
import Mathlib.Tactic.Positivity
import Mathlib.Tactic.Ring

namespace LoxLexer.Numeral

set_option autoImplicit false

open Decimal (unitsInOne)

/-! ## The format -/

/-- `significand * 2 ^ exponent` is a finite magnitude of the format. -/
structure InFormat (significand : ℕ) (exponent : ℤ) : Prop where
  significand_lt : significand < 2 ^ 53
  le_exponent : -1074 ≤ exponent
  exponent_le : exponent ≤ 971

/-- The significand of a rank: the low 52 bits, and a first bit that only the subnormal
magnitudes lack. -/
def significand (rank : ℕ) : ℕ :=
  if rank / 2 ^ 52 = 0 then rank else 2 ^ 52 + rank % 2 ^ 52

/-- The exponent of a rank: the high bits less their bias.  The subnormal magnitudes have
the exponent of the first binade. -/
def exponent (rank : ℕ) : ℤ :=
  if rank / 2 ^ 52 = 0 then -1074 else (rank / 2 ^ 52 : ℕ) - 1075

/-- The magnitude of a rank. -/
def magnitude (rank : ℕ) : ℚ := significand rank * 2 ^ exponent rank

/-- The magnitude of a rank is the nearest to a value: no other of the format is nearer, and
if another is as near, then the significand is even. -/
structure Nearest (value : ℚ) (rank : Fin rankBound) : Prop where
  nearest : ∀ s e, InFormat s e → |magnitude rank - value| ≤ |s * 2 ^ e - value|
  even : ∀ s e, InFormat s e → (s * 2 ^ e : ℚ) ≠ magnitude rank →
    |s * 2 ^ e - value| = |magnitude rank - value| → significand rank % 2 = 0

/-- The double that a value which is not negative rounds to, ties to even. -/
inductive RoundsTo (value : ℚ) : Binary64 → Prop
  | finite {rank : Fin rankBound} :
      value < 2 ^ 1024 - 2 ^ 970 → Nearest value rank → RoundsTo value (.finite false rank)
  | infinite : 2 ^ 1024 - 2 ^ 970 ≤ value → RoundsTo value (.infinite false)

/-! ## Fields and units -/

theorem binadeSize_eq : binadeSize = 2 ^ 52 := rfl

section Fields

variable {scale bits : ℕ} (full : scale = 0 ∨ binadeSize ≤ bits) (small : bits < 2 * binadeSize)

include full small

/-- The fields of a rank are its scale and its significand. -/
theorem fields_of_scale :
    significand (scale * binadeSize + bits) = bits ∧
      exponent (scale * binadeSize + bits) = scale - 1074 := by
  by_cases subnormal : bits < binadeSize
  · have zero : scale = 0 := by omega
    subst zero
    have block : (0 * binadeSize + bits) / 2 ^ 52 = 0 := by
      rw [Nat.zero_mul, Nat.zero_add]
      exact Nat.div_eq_of_lt subnormal
    rw [significand, exponent, if_pos block, if_pos block]
    omega
  · have rank : scale * binadeSize + bits = (scale + 1) * 2 ^ 52 + (bits - 2 ^ 52) := by
      rw [binadeSize_eq] at *
      omega
    have inside : bits - 2 ^ 52 < 2 ^ 52 := by
      rw [binadeSize_eq] at *
      omega
    have quotient : ((scale + 1) * 2 ^ 52 + (bits - 2 ^ 52)) / 2 ^ 52 = scale + 1 := by omega
    rw [rank, significand, exponent, quotient, if_neg (Nat.succ_ne_zero scale),
      if_neg (Nat.succ_ne_zero scale)]
    rw [binadeSize_eq] at *
    push_cast
    omega

end Fields

theorem cast_pow (base count : ℕ) : ((Nat.pow base count : ℕ) : ℚ) = (base : ℚ) ^ count :=
  Nat.cast_pow base count

theorem cast_unitsInOne : (unitsInOne : ℚ) = 2 ^ 1074 := by
  unfold unitsInOne
  generalize 1074 = count
  rw [cast_pow, Nat.cast_ofNat]

theorem unitsInOne_pos : (0 : ℚ) < unitsInOne := by
  have positive : 0 < unitsInOne := by decide +kernel
  exact_mod_cast positive

/-- The powers of two of the format, in units. -/
theorem two_zpow_eq (scale : ℕ) :
    (2 : ℚ) ^ ((scale : ℤ) - 1074) = Nat.pow 2 scale / unitsInOne := by
  rw [zpow_sub₀ two_ne_zero, zpow_natCast, zpow_ofNat, cast_pow, cast_unitsInOne,
    Nat.cast_ofNat]

/-- The magnitude of a rank is its units. -/
theorem magnitude_eq (rank : ℕ) : magnitude rank = units rank / unitsInOne := by
  obtain ⟨scale, bits, rfl, full, small⟩ := exists_scale rank
  obtain ⟨bitsEq, scaleEq⟩ := fields_of_scale full small
  rw [magnitude, bitsEq, scaleEq, units_of_scale full (by omega), two_zpow_eq, mul_div_assoc',
    Nat.cast_mul]

/-- The parity of a rank is that of its significand. -/
@[simp] theorem significand_mod_two (rank : ℕ) : significand rank % 2 = rank % 2 := by
  unfold significand
  split
  · rfl
  · omega

/-- The magnitude of a rank is one of the format. -/
theorem inFormat_rank (rank : Fin rankBound) :
    InFormat (significand rank) (exponent rank) := by
  have bounded : rank.val < 2047 * 2 ^ 52 := rank.isLt
  constructor
  · unfold significand
    split <;> omega
  · unfold exponent
    split <;> omega
  · unfold exponent
    split <;> omega

/-- Every number of the format has a rank, as a significand can be doubled until it is full
or the scale is zero. -/
theorem exists_rank (bits scale : ℕ) (small : bits < 2 * binadeSize) (bounded : scale ≤ 2045) :
    ∃ rank < rankBound, units rank = bits * Nat.pow 2 scale := by
  induction scale generalizing bits with
  | zero =>
      refine ⟨0 * binadeSize + bits, ?_, units_of_scale (.inl rfl) (by omega)⟩
      show 0 * binadeSize + bits < 2047 * binadeSize
      omega
  | succ scale ih =>
      by_cases full : binadeSize ≤ bits
      · refine ⟨(scale + 1) * binadeSize + bits, ?_, units_of_scale (.inr full) (by omega)⟩
        calc (scale + 1) * binadeSize + bits
            < (scale + 1) * binadeSize + 2 * binadeSize := by omega
          _ = (scale + 3) * binadeSize := by rw [← Nat.add_mul]
          _ ≤ rankBound := Nat.mul_le_mul_right binadeSize (by omega)
      · obtain ⟨rank, less, value⟩ := ih (bits * 2) (by omega) (by omega)
        refine ⟨rank, less, ?_⟩
        rw [value, Nat.mul_assoc]
        show bits * (2 * Nat.pow 2 scale) = bits * (Nat.pow 2 scale * 2)
        rw [Nat.mul_comm 2]

theorem exists_rank_of_inFormat {s : ℕ} {e : ℤ} (inFormat : InFormat s e) :
    ∃ rank < rankBound, (s * 2 ^ e : ℚ) = magnitude rank := by
  obtain ⟨small, low, high⟩ := inFormat
  obtain ⟨scale, rfl⟩ : ∃ scale : ℕ, e = scale - 1074 := ⟨(e + 1074).toNat, by omega⟩
  obtain ⟨rank, less, value⟩ := exists_rank s scale small (by omega)
  refine ⟨rank, less, ?_⟩
  rw [magnitude_eq, value, two_zpow_eq, mul_div_assoc', Nat.cast_mul]

/-! ## Neighbours -/

/-- Larger ranks have larger magnitudes. -/
theorem strictMono_units : StrictMono units := strictMono_nat_of_lt_succ units_lt_succ

@[simp] theorem magnitude_lt_iff {rank other : ℕ} :
    magnitude rank < magnitude other ↔ rank < other := by
  rw [magnitude_eq, magnitude_eq, div_lt_div_iff_of_pos_right unitsInOne_pos, Nat.cast_lt,
    strictMono_units.lt_iff_lt]

theorem magnitude_inj {rank other : ℕ} (same : magnitude rank = magnitude other) :
    rank = other := by
  rw [magnitude_eq, magnitude_eq, div_left_inj' unitsInOne_pos.ne', Nat.cast_inj] at same
  exact strictMono_units.injective same

/-- A count of units is in the interval of a rank, its ends included if the rank is even. -/
structure Within (count : ℚ) (rank : ℕ) : Prop where
  low : units (rank - 1) + units rank ≤ 2 * count
  high : 2 * count ≤ units rank + units (rank + 1)
  inside : rank % 2 = 1 →
    units (rank - 1) + units rank < 2 * count ∧ 2 * count < units rank + units (rank + 1)

/-- The interval of a rank, as a condition on whole numbers and on their quotient. -/
theorem rounds_iff_within {num den : ℕ} (positive : 0 < den) {count : ℚ}
    (same : count * den = num) (rank : ℕ) : Rounds num den rank ↔ Within count rank := by
  have above : (0 : ℚ) < den := by exact_mod_cast positive
  have le_left (bound : ℕ) : bound * den ≤ 2 * num ↔ (bound : ℚ) ≤ 2 * count := by
    rw [← mul_le_mul_iff_left₀ above, mul_assoc, same]
    exact_mod_cast Iff.rfl
  have le_right (bound : ℕ) : 2 * num ≤ bound * den ↔ 2 * count ≤ (bound : ℚ) := by
    rw [← mul_le_mul_iff_left₀ above, mul_assoc, same]
    exact_mod_cast Iff.rfl
  have lt_left (bound : ℕ) : bound * den < 2 * num ↔ (bound : ℚ) < 2 * count := by
    rw [← not_le, ← not_le, le_right]
  have lt_right (bound : ℕ) : 2 * num < bound * den ↔ 2 * count < (bound : ℚ) := by
    rw [← not_le, ← not_le, le_left]
  unfold Rounds
  rw [le_left, le_right, lt_left, lt_right]
  push_cast
  exact ⟨fun ⟨low, high, inside⟩ => ⟨low, high, inside⟩,
    fun ⟨low, high, inside⟩ => ⟨low, high, inside⟩⟩

section Nearer

variable {left right value : ℚ} (less : left < right)

include less

/-- From the middle of two numbers on, the right one is not farther. -/
theorem right_nearer_iff : |right - value| ≤ |left - value| ↔ left + right ≤ 2 * value := by
  have factors : (left - value) ^ 2 - (right - value) ^ 2 =
      (right - left) * (2 * value - (left + right)) := by ring
  rw [← sq_le_sq, ← sub_nonneg, factors, mul_nonneg_iff_of_pos_left (sub_pos.mpr less),
    sub_nonneg]

theorem left_nearer_iff : |left - value| ≤ |right - value| ↔ 2 * value ≤ left + right := by
  have factors : (right - value) ^ 2 - (left - value) ^ 2 =
      (right - left) * (left + right - 2 * value) := by ring
  rw [← sq_le_sq, ← sub_nonneg, factors, mul_nonneg_iff_of_pos_left (sub_pos.mpr less),
    sub_nonneg]

end Nearer

/-- In the interval of a rank no other magnitude is nearer, and only at its ends is one as
near. -/
theorem Within.nearest {count : ℚ} {rank : ℕ} (within : Within count rank) (other : ℕ) :
    |(units rank : ℚ) - count| ≤ |(units other : ℚ) - count| ∧
      (other ≠ rank → |(units other : ℚ) - count| = |(units rank : ℚ) - count| →
        rank % 2 = 0) := by
  obtain ⟨low, high, inside⟩ := within
  rcases Nat.lt_trichotomy other rank with less | rfl | greater
  · have apart : (units other : ℚ) < units rank := by exact_mod_cast strictMono_units less
    have neighbour : (units other : ℚ) ≤ units (rank - 1) := by
      exact_mod_cast units_le_of_le (by omega)
    refine ⟨(right_nearer_iff apart).mpr (by linarith), fun _ tie => ?_⟩
    have middle := (left_nearer_iff apart).mp tie.le
    by_contra odd
    have above := (inside (by omega)).1
    linarith
  · exact ⟨le_refl _, fun different => absurd rfl different⟩
  · have apart : (units rank : ℚ) < units other := by exact_mod_cast strictMono_units greater
    have neighbour : (units (rank + 1) : ℚ) ≤ units other := by
      exact_mod_cast units_le_of_le (by omega)
    refine ⟨(left_nearer_iff apart).mpr (by linarith), fun _ tie => ?_⟩
    have middle := (right_nearer_iff apart).mp tie.le
    by_contra odd
    have below := (inside (by omega)).2
    linarith

/-- Where no other rank is nearer, and none is as near if the rank is odd, the count is in
the interval.  The last rank has no neighbour above, but there infinity begins. -/
theorem within_of_nearest {count : ℚ} {rank : ℕ} (nonneg : 0 ≤ count)
    (small : 2 * count < units (rankBound - 1) + units rankBound) (bounded : rank < rankBound)
    (nearest : ∀ other < rankBound, |(units rank : ℚ) - count| ≤ |(units other : ℚ) - count| ∧
      (other ≠ rank → |(units other : ℚ) - count| = |(units rank : ℚ) - count| →
        rank % 2 = 0)) : Within count rank := by
  have low : (units (rank - 1) + units rank : ℚ) ≤ 2 * count ∧
      (rank % 2 = 1 → (units (rank - 1) + units rank : ℚ) < 2 * count) := by
    by_cases zero : rank = 0
    · subst zero
      refine ⟨?_, fun odd => absurd odd (by decide)⟩
      rw [units_of_lt binadeSize_pos]
      simpa using nonneg
    have apart : (units (rank - 1) : ℚ) < units rank := by
      exact_mod_cast strictMono_units (by omega)
    obtain ⟨near, tie⟩ := nearest (rank - 1) (by omega)
    refine ⟨(right_nearer_iff apart).mp near, fun odd => ?_⟩
    by_contra beyond
    have even := tie (by omega) (le_antisymm ((left_nearer_iff apart).mpr (not_lt.mp beyond)) near)
    omega
  have high : (2 * count ≤ units rank + units (rank + 1)) ∧
      (rank % 2 = 1 → 2 * count < units rank + units (rank + 1)) := by
    by_cases last : rank + 1 = rankBound
    · rw [← last, Nat.add_sub_cancel] at small
      exact ⟨small.le, fun _ => small⟩
    have apart : (units rank : ℚ) < units (rank + 1) := by exact_mod_cast units_lt_succ rank
    obtain ⟨near, tie⟩ := nearest (rank + 1) (by omega)
    refine ⟨(left_nearer_iff apart).mp near, fun odd => ?_⟩
    by_contra beyond
    have even := tie (by omega) (le_antisymm ((right_nearer_iff apart).mpr (not_lt.mp beyond)) near)
    omega
  exact ⟨low.1, high.1, fun odd => ⟨low.2 odd, high.2 odd⟩⟩

/-! ## The rule and the intervals -/

/-- Distances of values are those of their counts of units. -/
theorem distance_eq (rank : ℕ) (value : ℚ) :
    |magnitude rank - value| = |(units rank : ℚ) - value * unitsInOne| / unitsInOne := by
  have apart : magnitude rank - value =
      ((units rank : ℚ) - value * unitsInOne) / unitsInOne := by
    rw [magnitude_eq, sub_div, mul_div_cancel_right₀ value unitsInOne_pos.ne']
  rw [apart, abs_div, abs_of_pos unitsInOne_pos]

theorem cast_overflow : (Binary64.overflow : ℚ) = 2 ^ 1024 - 2 ^ 970 := by
  have ordered : 970 ≤ 1024 := by omega
  unfold Binary64.overflow
  generalize 970 = less at ordered ⊢
  generalize 1024 = more at ordered ⊢
  have order : Nat.pow 2 less ≤ Nat.pow 2 more := Nat.pow_le_pow_right two_pos ordered
  rw [Nat.cast_sub order, cast_pow, cast_pow, Nat.cast_ofNat]

/-- Infinity begins half a step above the last magnitude. -/
theorem lt_overflow_iff (value : ℚ) :
    value < Binary64.overflow ↔
      2 * (value * unitsInOne) < units (rankBound - 1) + units rankBound := by
  have ends : (units (rankBound - 1) + units rankBound : ℚ) =
      2 * unitsInOne * Binary64.overflow := by
    exact_mod_cast Binary64.units_overflow
  have twice : 2 * (value * unitsInOne) = 2 * unitsInOne * value := by ring
  rw [ends, twice, mul_lt_mul_iff_right₀ (mul_pos two_pos unitsInOne_pos)]

/-- **The intervals are the rule of the format.** -/
theorem nearest_iff_within {value : ℚ} (nonneg : 0 ≤ value) (rank : Fin rankBound) :
    value < Binary64.overflow ∧ Nearest value rank ↔ Within (value * unitsInOne) rank.val := by
  rw [lt_overflow_iff]
  constructor
  · rintro ⟨small, nearest, even⟩
    have nonneg' := mul_nonneg nonneg unitsInOne_pos.le
    refine within_of_nearest nonneg' small rank.isLt fun other bounded => ?_
    have inFormat := inFormat_rank ⟨other, bounded⟩
    have near : |magnitude rank - value| ≤ |magnitude other - value| := nearest _ _ inFormat
    have tie : magnitude other ≠ magnitude rank →
        |magnitude other - value| = |magnitude rank - value| → significand rank % 2 = 0 :=
      even _ _ inFormat
    rw [distance_eq, distance_eq, div_le_div_iff_of_pos_right unitsInOne_pos] at near
    rw [distance_eq, distance_eq, div_left_inj' unitsInOne_pos.ne', significand_mod_two] at tie
    exact ⟨near, fun different => tie fun same => different (magnitude_inj same)⟩
  · intro within
    refine ⟨?_, ⟨fun s e inFormat => ?_, fun s e inFormat => ?_⟩⟩
    · by_cases last : rank.val = rankBound - 1
      · have odd : rank.val % 2 = 1 := by rw [last]; decide
        have below := (within.inside odd).2
        rwa [last, Nat.sub_add_cancel (by decide)] at below
      · have here : (units rank.val : ℚ) < units (rankBound - 1) := by
          exact_mod_cast strictMono_units (by omega)
        have next : (units (rank.val + 1) : ℚ) ≤ units rankBound := by
          exact_mod_cast units_le_of_le (by omega)
        linarith [within.high]
    · obtain ⟨other, -, same⟩ := exists_rank_of_inFormat inFormat
      rw [same, distance_eq, distance_eq, div_le_div_iff_of_pos_right unitsInOne_pos]
      exact (within.nearest other).1
    · obtain ⟨other, -, same⟩ := exists_rank_of_inFormat inFormat
      rw [same, distance_eq, distance_eq, div_left_inj' unitsInOne_pos.ne', significand_mod_two]
      exact fun different => (within.nearest other).2 fun equal => different (by rw [equal])

/-- Nothing rounds to a NaN, and what is not negative to no double with a sign. -/
theorem RoundsTo.infinite_or_finite {value : ℚ} {double : Binary64}
    (rounds : RoundsTo value double) :
    double = .infinite false ∨ ∃ rank, double = .finite false rank := by
  cases rounds with
  | finite => exact .inr ⟨_, rfl⟩
  | infinite => exact .inl rfl

theorem roundsTo_infinite_iff {value : ℚ} :
    RoundsTo value (.infinite false) ↔ 2 ^ 1024 - 2 ^ 970 ≤ value := by
  constructor
  · rintro ⟨⟩
    assumption
  · exact .infinite

theorem roundsTo_finite_iff {value : ℚ} (nonneg : 0 ≤ value) (rank : Fin rankBound) :
    RoundsTo value (.finite false rank) ↔ Within (value * unitsInOne) rank.val := by
  rw [← nearest_iff_within nonneg, cast_overflow]
  constructor
  · rintro ⟨small, nearest⟩
    exact ⟨small, nearest⟩
  · rintro ⟨small, nearest⟩
    exact .finite small nearest

/-- Zero ends with half of the least positive double. -/
theorem roundsTo_zero_iff {value : ℚ} (nonneg : 0 ≤ value) :
    RoundsTo value (.zero false) ↔ value ≤ 2 ^ (-1075 : ℤ) := by
  have half : (2 : ℚ) ^ (-1075 : ℤ) = (2 * (unitsInOne : ℚ))⁻¹ := by
    have next (count : ℕ) : (2 : ℚ) ^ (-((count : ℤ) + 1)) = (2 * 2 ^ count)⁻¹ := by
      rw [zpow_neg, zpow_add_one₀ two_ne_zero, zpow_natCast, mul_comm]
    rw [cast_unitsInOne, ← next]
    rfl
  have end_iff : value ≤ 2 ^ (-1075 : ℤ) ↔ 2 * (value * unitsInOne) ≤ 1 := by
    rw [half, ← one_div, le_div_iff₀ (mul_pos two_pos unitsInOne_pos), mul_left_comm]
  have ends : (units 0 + units (0 + 1) : ℚ) = 1 := by
    have count : units 0 + units (0 + 1) = 1 := by decide +kernel
    exact_mod_cast count
  rw [end_iff, Binary64.zero, roundsTo_finite_iff nonneg]
  constructor
  · intro within
    rw [← ends]
    exact within.high
  · intro small
    refine ⟨?_, ?_, fun odd => absurd odd (by decide)⟩
    · have none : units (0 - 1) + units 0 = 0 := by decide +kernel
      have nonneg' := mul_nonneg nonneg unitsInOne_pos.le
      rw [← Nat.cast_add, none, Nat.cast_zero]
      linarith
    · rw [ends]
      exact small

/-! ## Decimals -/

/-- The value of a decimal. -/
def Decimal.value (d : Decimal) : ℚ := d.digits * 10 ^ d.exponent

theorem Decimal.value_nonneg (d : Decimal) : 0 ≤ d.value := by
  unfold value
  positivity

theorem Decimal.value_mul_den_eq (d : Decimal) :
    d.value * d.den = d.digits * 10 ^ d.exponent.toNat := by
  have powers : (10 : ℚ) ^ d.exponent * 10 ^ (-d.exponent).toNat = 10 ^ d.exponent.toNat := by
    rw [← zpow_natCast, ← zpow_natCast, ← zpow_add₀ (by norm_num)]
    congr 1
    omega
  rw [value, den, cast_pow, Nat.cast_ofNat, mul_assoc, powers]

/-- The value of a decimal in units is the quotient that is rounded. -/
theorem Decimal.units_mul_den (d : Decimal) : d.value * unitsInOne * d.den = d.num := by
  rw [mul_right_comm, value_mul_den_eq, num, Nat.cast_mul, Nat.cast_mul, cast_pow, Nat.cast_ofNat]

/-- A decimal is at least a whole number if its value is. -/
theorem Decimal.atLeast_iff (bound : ℕ) (d : Decimal) : d.AtLeast bound ↔ bound ≤ d.value := by
  have positive : (0 : ℚ) < d.den := by exact_mod_cast d.den_pos
  rw [AtLeast, ← mul_le_mul_iff_left₀ positive, value_mul_den_eq]
  exact_mod_cast Iff.rfl

/-- A decimal is read as the rank in whose interval it lies. -/
theorem Decimal.within_iff (d : Decimal) (rank : ℕ) :
    Within (d.value * unitsInOne) rank ↔ nearestRank d.num d.den = rank := by
  rw [nearestRank_eq_iff d.num d.den_pos, rounds_iff_within d.den_pos d.units_mul_den]

namespace Binary64

/-- **A decimal rounds to the double that it is read as, and to no other.** -/
theorem roundsTo_iff (d : Decimal) (double : Binary64) :
    RoundsTo d.value double ↔ double = ofDecimal false d.digits d.exponent := by
  have finite_iff (rank : Fin rankBound) :
      RoundsTo d.value (.finite false rank) ↔ nearestRank d.num d.den = rank := by
    rw [← d.within_iff, roundsTo_finite_iff d.value_nonneg]
  have infinite_iff : RoundsTo d.value (.infinite false) ↔
      ofDecimal false d.digits d.exponent = .infinite false := by
    rw [ofDecimal_eq_infinite_iff, Decimal.atLeast_iff, cast_overflow, roundsTo_infinite_iff]
  have read : (∃ rank : Fin rankBound, ofDecimal false d.digits d.exponent = .finite false rank ∧
      nearestRank d.num d.den = rank) ∨ ofDecimal false d.digits d.exponent = .infinite false := by
    rw [ofDecimal_eq, ofRank]
    split
    · exact .inl ⟨_, rfl, rfl⟩
    · exact .inr rfl
  constructor
  · intro rounds
    cases rounds with
    | @finite rank small nearest =>
        have found := (finite_iff rank).mp (.finite small nearest)
        rw [ofDecimal_eq, found, ofRank, dif_pos rank.isLt]
    | infinite large => exact (infinite_iff.mp (.infinite large)).symm
  · rintro rfl
    rcases read with ⟨rank, same, found⟩ | same
    · rw [same]
      exact (finite_iff rank).mpr found
    · rw [same]
      exact infinite_iff.mpr same

end Binary64

/-! ## Numerals -/

/-- A text is a numeral, digits with digits after a point or without, of this value. -/
inductive Spells : List Char → ℚ → Prop
  | integer {digits : List Char} :
      digits ≠ [] → (∀ c ∈ digits, c.isDigit = true) → Spells digits (Nat.ofDigitChars 10 digits 0)
  | decimal {whole fraction : List Char} :
      whole ≠ [] → (∀ c ∈ whole, c.isDigit = true) →
      fraction ≠ [] → (∀ c ∈ fraction, c.isDigit = true) →
      Spells (whole ++ '.' :: fraction)
        (Nat.ofDigitChars 10 whole 0 + Nat.ofDigitChars 10 fraction 0 / 10 ^ fraction.length)

/-- Digits up to the end are a whole part alone. -/
theorem parts_of_digits {digits : List Char} (all : ∀ c ∈ digits, c.isDigit = true) :
    digits.takeWhile Char.isDigit = digits ∧ digits.dropWhile Char.isDigit = [] := by
  have stops := noMore_nil Char.isDigit
  have taken := takeWhile_of_noMore all stops
  have left := dropWhile_of_noMore all stops
  rw [List.append_nil] at taken left
  exact ⟨taken, left⟩

/-- Digits up to a point are a whole part with a fraction behind it. -/
theorem parts_of_point {whole : List Char} (all : ∀ c ∈ whole, c.isDigit = true)
    (fraction : List Char) :
    (whole ++ '.' :: fraction).takeWhile Char.isDigit = whole ∧
      (whole ++ '.' :: fraction).dropWhile Char.isDigit = '.' :: fraction := by
  have point : NoMore Char.isDigit ('.' :: fraction) := noMore_cons.mpr rfl
  exact ⟨takeWhile_of_noMore all point, dropWhile_of_noMore all point⟩

section Numerals

variable {text : List Char} {value : ℚ} (spells : Spells text value)

include spells

/-- A numeral is read as the decimal of its value. -/
theorem Spells.value_eq : value = (Decimal.ofNumeral text).value := by
  cases spells with
  | integer named all =>
      obtain ⟨taken, left⟩ := parts_of_digits all
      simp [Decimal.ofNumeral, Decimal.value, taken, left]
  | @decimal whole fraction named wholeDigits some fractionDigits =>
      obtain ⟨taken, left⟩ := parts_of_point wholeDigits fraction
      have power : (10 ^ fraction.length : ℚ) ≠ 0 := by positivity
      have digits : Nat.ofDigitChars 10 fraction (Nat.ofDigitChars 10 whole 0) =
          10 ^ fraction.length * Nat.ofDigitChars 10 whole 0 + Nat.ofDigitChars 10 fraction 0 :=
        Nat.ofDigitChars_eq_ofDigitChars_zero
      simp only [Decimal.ofNumeral, Decimal.value, taken, left, List.drop_one, List.tail_cons,
        Nat.ofDigitChars_append, digits, zpow_neg, zpow_natCast]
      push_cast
      field_simp

/-- A numeral starts with a digit. -/
theorem Spells.head : ∃ c rest, text = c :: rest ∧ c.isDigit = true := by
  have head {whole : List Char} (named : whole ≠ []) (all : ∀ c ∈ whole, c.isDigit = true)
      (after : List Char) : ∃ c rest, whole ++ after = c :: rest ∧ c.isDigit = true := by
    obtain ⟨c, rest, rfl⟩ := List.exists_cons_of_ne_nil named
    exact ⟨c, rest ++ after, rfl, all c List.mem_cons_self⟩
  cases spells with
  | integer named all =>
      have first := head named all []
      rwa [List.append_nil] at first
  | decimal named wholeDigits => exact head named wholeDigits _

/-- A numeral is read whole, also by the reader that takes more than numerals. -/
theorem Spells.read?_eq : Binary64.read? text = some (Binary64.ofNumeral text) := by
  have read : Binary64.read? text = Binary64.decimal? false text := by
    obtain ⟨c, rest, rfl, digit⟩ := spells.head
    exact Binary64.read?_sign false digit rest
  have stops := noMore_nil Char.isDigit
  rw [read]
  cases spells with
  | integer named all =>
      obtain ⟨taken, left⟩ := parts_of_digits all
      have parts := Binary64.decimal?_of_no_point false named all stops (noMore_nil _)
      rw [List.append_nil] at parts
      rw [parts, Binary64.ofNumeral, taken, left]
      rfl
  | @decimal whole fraction named wholeDigits some fractionDigits =>
      obtain ⟨taken, left⟩ := parts_of_point wholeDigits fraction
      have parts := Binary64.decimal?_of_point false named wholeDigits fractionDigits stops
      rw [List.append_nil] at parts
      rw [parts, Binary64.ofNumeral, taken, left]
      rfl

/-- **A numeral denotes the double that its value rounds to, and that alone.** -/
theorem Spells.roundsTo_iff (double : Binary64) :
    RoundsTo value double ↔ double = Binary64.ofNumeral text := by
  rw [spells.value_eq, Binary64.ofNumeral_eq, Binary64.roundsTo_iff]

theorem Spells.nonneg : 0 ≤ value := by
  rw [spells.value_eq]
  exact Decimal.value_nonneg _

end Numerals

end LoxLexer.Numeral

namespace LoxLexer

open Numeral

/-! ## Number tokens -/

/-- What yields a number is a numeral. -/
theorem spells_of_longest {piece : Piece} {after : List Char} (longest : Longest piece after)
    {literal : Literal} (made : piece.outcome = .token .number literal) :
    ∃ value, Spells piece.text value := by
  have operatorKinds : ∀ entry ∈ operators, entry.2.1 ≠ .number ∧ entry.2.2 ≠ .number := by
    decide
  cases longest with
  | integer named all => exact ⟨_, .integer named all⟩
  | decimal named wholeDigits some fractionDigits =>
      exact ⟨_, .decimal named wholeDigits some fractionDigits⟩
  | mark listed =>
      have markKinds : ∀ entry ∈ marks, entry.2 ≠ .number := by decide
      cases made
      exact absurd rfl (markKinds _ listed)
  | operator listed =>
      cases made
      exact absurd rfl (operatorKinds _ listed).1
  | operatorEqual listed =>
      cases made
      exact absurd rfl (operatorKinds _ listed).2
  | _ => cases made

/-- A number token reads its lexeme, which is a numeral. -/
theorem Token.IsFound.number {token : Token} (found : token.IsFound)
    (number : token.kind = .number) :
    token.literal = .number (Binary64.ofNumeral token.lexeme.toList) ∧
      ∃ value, Spells token.lexeme.toList value := by
  rcases found with legible | ⟨line, rfl⟩
  · refine ⟨?_, ?_⟩
    · rw [legible.literal_eq, number]
      rfl
    · obtain ⟨after, longest⟩ := legible
      rw [number] at longest
      exact spells_of_longest longest rfl
  · cases number

variable {Sink : Type} [ReportSink Sink]

/-- **Number literals are correctly rounded.**  The lexeme of a number token is a numeral, so
it can be read, and its literal is read from it alone.  It is the only double that the exact
value of the numeral rounds to: infinity from half a step above the greatest double on, zero
up to half of the least, and never negative nor a NaN. -/
theorem run_rounds_numbers (sink : Sink) (text : List Char) :
    ∀ token ∈ (Lexer.ofText text sink).run.tokens.toList, token.kind = .number →
      let lexeme := token.lexeme.toList
      let double := Binary64.ofNumeral lexeme
      token.literal = .number double ∧ Binary64.read? lexeme = some double ∧
      ∃ value, Spells lexeme value ∧ (∀ other, Spells lexeme other → other = value) ∧
        (∀ other, RoundsTo value other ↔ other = double) ∧
        (double = .infinite false ↔ 2 ^ 1024 - 2 ^ 970 ≤ value) ∧
        (double = .zero false ↔ value ≤ 2 ^ (-1075 : ℤ)) ∧
        (double = .infinite false ∨ ∃ rank, double = .finite false rank) := by
  intro token member number lexeme double
  obtain ⟨literal, value, spells⟩ := (isFound_of_mem_run sink member).number number
  refine ⟨literal, spells.read?_eq, value, spells, ?_, spells.roundsTo_iff, ?_, ?_, ?_⟩
  · intro other spelled
    rw [spells.value_eq, spelled.value_eq]
  · rw [eq_comm, ← spells.roundsTo_iff, roundsTo_infinite_iff]
  · rw [eq_comm, ← spells.roundsTo_iff, roundsTo_zero_iff spells.nonneg]
  · exact ((spells.roundsTo_iff double).mpr rfl).infinite_or_finite

/-- Half the way between two doubles: the numeral is odd and one above `2 ^ 53`, and the even
one of its neighbours is below it. -/
theorem run_rounds_numbers_of_tie :
    let text := "x 9007199254740993"
    let double := Binary64.ofRank false (1076 * binadeSize)
    let token : Token := ⟨.number, "9007199254740993", .number double, 1⟩
    token ∈ (Lexer.ofText text.toList Recorder.empty).run.tokens.toList ∧ token.kind = .number ∧
      Binary64.ofNumeral token.lexeme.toList = double ∧
      ∃ value, Spells token.lexeme.toList value ∧ RoundsTo value double := by
  intro text double token
  have member : token ∈ (Lexer.ofText text.toList Recorder.empty).run.tokens.toList := by
    decide +kernel
  obtain ⟨literal, -, value, spells, -, rounds, -⟩ :=
    run_rounds_numbers Recorder.empty text.toList token member rfl
  have same : Binary64.ofNumeral token.lexeme.toList = double := Literal.number.inj literal.symm
  exact ⟨member, rfl, same, value, spells, (rounds double).mpr same.symm⟩

end LoxLexer
