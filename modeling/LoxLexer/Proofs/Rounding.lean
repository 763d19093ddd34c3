/-
# LoxLexer.Proofs.Rounding -- rounding is correct

Each rank is the nearest one to an interval of quotients, whose ends lie half way to the
magnitudes next to it and belong to it if the rank is even: `Rounds`.  The intervals cover
every quotient, as `nearestRank` finds the rank of one (`rounds_nearestRank`), and share
no more than their ends, of which even and odd ranks take turns (`Rounds.unique`).  So
`nearestRank` is characterised by its interval (`nearestRank_eq_iff`), and depends on the
value of a quotient alone (`nearestRank_congr`).

A rank is a scale and a significand that is full unless the scale is zero; its magnitude
is the significand times a power of two (`units_of_scale`).  At the foot of a binade the
gap below is half the gap above, so there the lower end is not where the rounded quotient
has its tie.  The quotient is then not below the magnitude at all, because the scale
leaves no fewer than 53 bits.
-/
import LoxLexer.Numeral.Binary64

namespace LoxLexer.Numeral

set_option autoImplicit false

/-! ## Magnitudes -/

theorem binadeSize_pos : 0 < binadeSize := by decide

theorem binadeSize_even : binadeSize % 2 = 0 := by decide

theorem units_of_lt {rank : Nat} (subnormal : rank < binadeSize) : units rank = rank := by
  rw [units, if_pos (Nat.div_eq_of_lt subnormal)]

theorem units_block (block : Nat) {offset : Nat} (inside : offset < binadeSize) :
    units ((block + 1) * binadeSize + offset) = (binadeSize + offset) * Nat.pow 2 block := by
  have quotient : ((block + 1) * binadeSize + offset) / binadeSize = block + 1 := by
    rw [Nat.add_comm, Nat.add_mul_div_right _ _ binadeSize_pos, Nat.div_eq_of_lt inside,
      Nat.zero_add]
  have remainder : ((block + 1) * binadeSize + offset) % binadeSize = offset := by
    rw [Nat.add_comm, Nat.add_mul_mod_self_right, Nat.mod_eq_of_lt inside]
  rw [units, quotient, remainder, if_neg (Nat.succ_ne_zero block), Nat.add_sub_cancel]

/-- The magnitude of a scale and a significand of 53 bits, which has its first bit unless
the scale is zero.  The significand may also be the one after the last. -/
theorem units_of_scale {scale significand : Nat} (full : scale = 0 ∨ binadeSize ≤ significand)
    (small : significand ≤ 2 * binadeSize) :
    units (scale * binadeSize + significand) = significand * Nat.pow 2 scale := by
  by_cases subnormal : significand < binadeSize
  · have zero : scale = 0 := by omega
    subst zero
    rw [Nat.zero_mul, Nat.zero_add, units_of_lt subnormal]
    show significand = significand * 1
    rw [Nat.mul_one]
  by_cases inside : significand < 2 * binadeSize
  · have rank : scale * binadeSize + significand =
        (scale + 1) * binadeSize + (significand - binadeSize) := by
      rw [Nat.add_mul]
      omega
    have sum : binadeSize + (significand - binadeSize) = significand := by omega
    rw [rank, units_block scale (by omega), sum]
  · have last : significand = 2 * binadeSize := by omega
    subst last
    have rank : scale * binadeSize + 2 * binadeSize = (scale + 1 + 1) * binadeSize + 0 := by
      rw [Nat.add_mul, Nat.add_mul]
      omega
    rw [rank, units_block (scale + 1) binadeSize_pos, Nat.add_zero]
    show binadeSize * (Nat.pow 2 scale * 2) = _
    rw [Nat.mul_comm 2, Nat.mul_assoc, Nat.mul_comm 2]

/-- Every rank has a scale and a significand. -/
theorem exists_scale (rank : Nat) :
    ∃ scale significand, rank = scale * binadeSize + significand ∧
      (scale = 0 ∨ binadeSize ≤ significand) ∧ significand < 2 * binadeSize := by
  have split := Nat.div_add_mod rank binadeSize
  have inside := Nat.mod_lt rank binadeSize_pos
  cases block : rank / binadeSize with
  | zero =>
      rw [block, Nat.mul_zero, Nat.zero_add] at split
      refine ⟨0, rank, ?_, .inl rfl, ?_⟩
      · rw [Nat.zero_mul, Nat.zero_add]
      · omega
  | succ scale =>
      refine ⟨scale, binadeSize + rank % binadeSize, ?_, .inr (Nat.le_add_right _ _), ?_⟩
      · rw [block, Nat.mul_succ, Nat.mul_comm] at split
        omega
      · omega

theorem units_lt_succ (rank : Nat) : units rank < units (rank + 1) := by
  obtain ⟨scale, significand, rfl, full, small⟩ := exists_scale rank
  rw [Nat.add_assoc, units_of_scale full (by omega), units_of_scale (by omega) (by omega)]
  exact Nat.mul_lt_mul_of_pos_right (Nat.lt_succ_self significand) (Nat.pow_pos (by decide))

theorem units_le_add (rank more : Nat) : units rank ≤ units (rank + more) := by
  induction more with
  | zero => exact Nat.le_refl _
  | succ more ih => exact Nat.le_trans ih (Nat.le_of_lt (units_lt_succ (rank + more)))

/-- Magnitudes grow with their ranks. -/
theorem units_le_of_le {rank other : Nat} (ordered : rank ≤ other) : units rank ≤ units other := by
  obtain ⟨more, rfl⟩ := Nat.exists_eq_add_of_le ordered
  exact units_le_add rank more

/-- The next magnitude is at least one step of the scale away. -/
theorem next_le_units {scale significand : Nat} (full : scale = 0 ∨ binadeSize ≤ significand)
    (small : significand ≤ 2 * binadeSize) :
    (significand + 1) * Nat.pow 2 scale ≤ units (scale * binadeSize + significand + 1) := by
  by_cases inside : significand < 2 * binadeSize
  · rw [Nat.add_assoc]
    exact Nat.le_of_eq (units_of_scale (by omega) (by omega)).symm
  · have last : significand = 2 * binadeSize := by omega
    subst last
    have rank : scale * binadeSize + 2 * binadeSize + 1 =
        (scale + 1) * binadeSize + (binadeSize + 1) := by
      rw [Nat.add_mul]
      omega
    have above := binadeSize_pos
    rw [rank, units_of_scale (.inr (Nat.le_add_right _ _)) (by omega)]
    show _ ≤ (binadeSize + 1) * (Nat.pow 2 scale * 2)
    rw [Nat.mul_comm (Nat.pow 2 scale), ← Nat.mul_assoc]
    exact Nat.mul_le_mul_right _ (by omega)

/-! ## The interval of a rank -/

/-- A quotient lies in the interval of a rank, in units: between the points half way to
the magnitudes next to it, with these if the rank is even. -/
def Rounds (num den rank : Nat) : Prop :=
  (units (rank - 1) + units rank) * den ≤ 2 * num ∧
  2 * num ≤ (units rank + units (rank + 1)) * den ∧
  (rank % 2 = 1 → (units (rank - 1) + units rank) * den < 2 * num ∧
    2 * num < (units rank + units (rank + 1)) * den)

theorem Rounds.not_lt {num den rank other : Nat} (positive : 0 < den)
    (first : Rounds num den rank) (second : Rounds num den other) : ¬ rank < other := by
  intro less
  obtain ⟨-, high, strictHigh⟩ := first
  obtain ⟨low, -, strictLow⟩ := second
  have here : units rank ≤ units (other - 1) := units_le_of_le (by omega)
  have next : units (rank + 1) ≤ units other := units_le_of_le (by omega)
  have ordered : (units rank + units (rank + 1)) * den ≤ (units (other - 1) + units other) * den :=
    Nat.mul_le_mul_right den (by omega)
  by_cases odd : rank % 2 = 1
  · have := (strictHigh odd).2
    omega
  by_cases otherOdd : other % 2 = 1
  · have := (strictLow otherOdd).1
    omega
  -- both ranks are even, so there is one between them
  have between : units (rank + 1) ≤ units (other - 1) := units_le_of_le (by omega)
  have apart : (units rank + units (rank + 1)) * den < (units (other - 1) + units other) * den := by
    apply Nat.mul_lt_mul_of_pos_right _ positive
    have := units_lt_succ rank
    omega
  omega

/-- **No quotient is in the intervals of two ranks.** -/
theorem Rounds.unique {num den rank other : Nat} (positive : 0 < den)
    (first : Rounds num den rank) (second : Rounds num den other) : rank = other := by
  have := first.not_lt positive second
  have := second.not_lt positive first
  omega

/-- The interval of a rank depends on the value of the quotient alone. -/
theorem Rounds.congr {num den num' den' rank : Nat} (positive : 0 < den) (positive' : 0 < den')
    (same : num * den' = num' * den) (rounds : Rounds num den rank) : Rounds num' den' rank := by
  have left (bound : Nat) : bound * den' * den = bound * den * den' := by
    rw [Nat.mul_assoc, Nat.mul_comm den', Nat.mul_assoc]
  have right : 2 * num' * den = 2 * num * den' := by
    rw [Nat.mul_assoc, Nat.mul_assoc, same]
  obtain ⟨low, high, strict⟩ := rounds
  refine ⟨?_, ?_, fun odd => ⟨?_, ?_⟩⟩
  · apply Nat.le_of_mul_le_mul_right _ positive
    rw [left, right]
    exact Nat.mul_le_mul_right den' low
  · apply Nat.le_of_mul_le_mul_right _ positive
    rw [left, right]
    exact Nat.mul_le_mul_right den' high
  · apply Nat.lt_of_mul_lt_mul_right (a := den)
    rw [left, right]
    exact Nat.mul_lt_mul_of_pos_right (strict odd).1 positive'
  · apply Nat.lt_of_mul_lt_mul_right (a := den)
    rw [left, right]
    exact Nat.mul_lt_mul_of_pos_right (strict odd).2 positive'

/-! ## The rank that is found -/

/-- The integer found is at most half a unit away, and even if it is that far. -/
theorem roundHalfEven_spec (num : Nat) {den : Nat} (positive : 0 < den) :
    let found := roundHalfEven num den
    2 * (found * den) ≤ 2 * num + den ∧ 2 * num ≤ 2 * (found * den) + den ∧
      (found % 2 = 1 → 2 * (found * den) < 2 * num + den ∧ 2 * num < 2 * (found * den) + den) ∧
      num / den ≤ found ∧ found ≤ num / den + 1 := by
  have split := Nat.div_add_mod num den
  have inside := Nat.mod_lt num positive
  rw [Nat.mul_comm] at split
  have above : (num / den + 1) * den = num / den * den + den := Nat.succ_mul _ _
  unfold roundHalfEven
  dsimp only
  split
  · refine ⟨?_, ?_, fun _ => ⟨?_, ?_⟩, ?_, ?_⟩ <;> omega
  split
  · rw [above]
    refine ⟨?_, ?_, fun _ => ⟨?_, ?_⟩, ?_, ?_⟩ <;> omega
  · have tie : 2 * (num % den) = den := by omega
    by_cases even : num / den % 2 = 0
    · rw [even, Nat.add_zero]
      refine ⟨?_, ?_, fun odd => absurd odd (by omega), ?_, ?_⟩ <;> omega
    · have odd : num / den % 2 = 1 := by omega
      rw [odd, above]
      refine ⟨?_, ?_, fun odd => absurd odd (by omega), ?_, ?_⟩ <;> omega

/-- Scaled down, a quotient has 53 bits at most, and no fewer unless the scale is zero. -/
theorem scale_spec (num den : Nat) :
    let scale := (num / den).log2 - 52
    (scale = 0 ∨ binadeSize ≤ num / (den * Nat.pow 2 scale)) ∧
      num / (den * Nat.pow 2 scale) < 2 * binadeSize := by
  intro scale
  have power : 0 < Nat.pow 2 scale := Nat.pow_pos (by decide)
  rw [← Nat.div_div_eq_div_mul]
  constructor
  · by_cases zero : scale = 0
    · exact .inl zero
    · right
      rw [Nat.le_div_iff_mul_le power]
      have nonzero : num / den ≠ 0 := by
        intro none
        simp [scale, none] at zero
      have below := Nat.log2_self_le nonzero
      have exponent : (num / den).log2 = 52 + scale := by omega
      rw [exponent, Nat.pow_add] at below
      exact below
  · rw [Nat.div_lt_iff_lt_mul power]
    have above : num / den < 2 ^ ((num / den).log2 + 1) := Nat.lt_log2_self
    have exponent : 2 ^ ((num / den).log2 + 1) ≤ 2 ^ (53 + scale) :=
      Nat.pow_le_pow_right (by decide) (by omega)
    have bits : 2 ^ (53 + scale) = 2 * binadeSize * Nat.pow 2 scale := Nat.pow_add 2 53 scale
    rw [bits] at exponent
    exact Nat.lt_of_lt_of_le above exponent

section Halves

variable {num den scale found : Nat} (positive : 0 < den)
  (full : scale = 0 ∨ binadeSize ≤ found) (small : found ≤ 2 * binadeSize)

include full small

theorem units_mul_of_scale (den : Nat) :
    units (scale * binadeSize + found) * den = found * (den * Nat.pow 2 scale) := by
  rw [units_of_scale full small, Nat.mul_assoc, Nat.mul_comm den]

/-- A quotient at most half a step above a magnitude is in the upper half of its interval. -/
theorem upper_half
    (high : 2 * num ≤ 2 * (found * (den * Nat.pow 2 scale)) + den * Nat.pow 2 scale)
    (strict : found % 2 = 1 →
      2 * num < 2 * (found * (den * Nat.pow 2 scale)) + den * Nat.pow 2 scale) :
    let rank := scale * binadeSize + found
    2 * num ≤ (units rank + units (rank + 1)) * den ∧
      (found % 2 = 1 → 2 * num < (units rank + units (rank + 1)) * den) := by
  intro rank
  have next : (found + 1) * (den * Nat.pow 2 scale) ≤ units (rank + 1) * den := by
    rw [Nat.mul_comm den, ← Nat.mul_assoc]
    exact Nat.mul_le_mul_right den (next_le_units full small)
  rw [Nat.succ_mul] at next
  rw [Nat.add_mul, units_mul_of_scale full small]
  refine ⟨by omega, fun odd => ?_⟩
  have := strict odd
  omega

include positive

/-- A quotient at most half a step below a magnitude is in the lower half of its interval.
At the foot of a binade the gap below is half of the one above, so the quotient must not be
below at all. -/
theorem lower_half
    (foot : scale ≠ 0 → found = binadeSize → found * (den * Nat.pow 2 scale) ≤ num)
    (low : 2 * (found * (den * Nat.pow 2 scale)) ≤ 2 * num + den * Nat.pow 2 scale)
    (strict : found % 2 = 1 →
      2 * (found * (den * Nat.pow 2 scale)) < 2 * num + den * Nat.pow 2 scale) :
    let rank := scale * binadeSize + found
    (units (rank - 1) + units rank) * den ≤ 2 * num ∧
      (found % 2 = 1 → (units (rank - 1) + units rank) * den < 2 * num) := by
  intro rank
  have here : units rank * den = found * (den * Nat.pow 2 scale) :=
    units_mul_of_scale full small den
  rw [Nat.add_mul, here]
  by_cases none : found = 0
  · have zero : scale = 0 := by
      have := binadeSize_pos
      omega
    subst none
    subst zero
    simp [rank, units]
  by_cases atFoot : scale ≠ 0 ∧ found = binadeSize
  · have below : units (rank - 1) * den < found * (den * Nat.pow 2 scale) := by
      rw [← here]
      apply Nat.mul_lt_mul_of_pos_right _ positive
      have less := units_lt_succ (rank - 1)
      rwa [Nat.sub_add_cancel (by omega)] at less
    have above := foot atFoot.1 atFoot.2
    exact ⟨by omega, fun _ => by omega⟩
  · have previous : units (rank - 1) * den + den * Nat.pow 2 scale =
        found * (den * Nat.pow 2 scale) := by
      rw [Nat.add_sub_assoc (by omega), units_of_scale (by omega) (by omega), Nat.mul_assoc,
        Nat.mul_comm _ den, ← Nat.succ_mul, Nat.succ_eq_add_one, Nat.sub_add_cancel (by omega)]
    refine ⟨by omega, fun odd => ?_⟩
    have := strict odd
    omega

end Halves

/-- **Rounding is correct.**  The rank that is found is the one whose interval the quotient
lies in. -/
theorem rounds_nearestRank (num : Nat) {den : Nat} (positive : 0 < den) :
    Rounds num den (nearestRank num den) := by
  obtain ⟨bits, few⟩ := scale_spec num den
  unfold nearestRank
  dsimp only
  generalize (num / den).log2 - 52 = scale at bits few ⊢
  have step : 0 < den * Nat.pow 2 scale := Nat.mul_pos positive (Nat.pow_pos (by decide))
  obtain ⟨low, high, strict, atLeast, atMost⟩ := roundHalfEven_spec num step
  -- a full quotient is no less than the first magnitude of its binade
  have bounded : binadeSize ≤ num / (den * Nat.pow 2 scale) →
      binadeSize * (den * Nat.pow 2 scale) ≤ num := (Nat.le_div_iff_mul_le step).mp
  generalize roundHalfEven num (den * Nat.pow 2 scale) = found at low high strict atLeast atMost ⊢
  have full : scale = 0 ∨ binadeSize ≤ found := by omega
  have small : found ≤ 2 * binadeSize := by omega
  have foot : scale ≠ 0 → found = binadeSize → found * (den * Nat.pow 2 scale) ≤ num := by
    rintro scaled rfl
    exact bounded (by omega)
  have odd_iff : (scale * binadeSize + found) % 2 = found % 2 := by
    rw [Nat.add_mod, Nat.mul_mod, binadeSize_even, Nat.mul_zero, Nat.zero_mod, Nat.zero_add,
      Nat.mod_mod]
  have lower := lower_half positive full small foot low fun odd => (strict odd).1
  have upper := upper_half full small high fun odd => (strict odd).2
  unfold Rounds
  rw [odd_iff]
  exact ⟨lower.1, upper.1, fun odd => ⟨lower.2 odd, upper.2 odd⟩⟩

/-- **Rounding finds a rank exactly for the quotients in its interval.** -/
theorem nearestRank_eq_iff (num : Nat) {den : Nat} (positive : 0 < den) (rank : Nat) :
    nearestRank num den = rank ↔ Rounds num den rank := by
  constructor
  · rintro rfl
    exact rounds_nearestRank num positive
  · exact fun rounds => (rounds_nearestRank num positive).unique positive rounds

/-- Quotients round to an even rank or above it from the lower end of its interval on. -/
theorem le_nearestRank_iff (num : Nat) {den : Nat} (positive : 0 < den) {rank : Nat}
    (even : rank % 2 = 0) :
    rank ≤ nearestRank num den ↔ (units (rank - 1) + units rank) * den ≤ 2 * num := by
  obtain ⟨low, high, strict⟩ := rounds_nearestRank num positive
  generalize nearestRank num den = found at low high strict
  constructor
  · intro above
    have here : units rank ≤ units found := units_le_of_le above
    have below : units (rank - 1) ≤ units (found - 1) := units_le_of_le (by omega)
    exact Nat.le_trans (Nat.mul_le_mul_right den (by omega)) low
  · intro above
    apply Nat.not_lt.mp
    intro less
    by_cases next : found + 1 = rank
    · have odd : found % 2 = 1 := by omega
      have here : rank - 1 = found := by omega
      rw [here, ← next] at above
      exact absurd (strict odd).2 (Nat.not_lt.mpr above)
    · -- there is a rank between the two, so the intervals do not touch
      have here : units (found + 1) ≤ units (rank - 1) := units_le_of_le (by omega)
      have after : units (found + 1) ≤ units rank := units_le_of_le (by omega)
      have grows := units_lt_succ found
      have apart : (units found + units (found + 1)) * den <
          (units (rank - 1) + units rank) * den :=
        Nat.mul_lt_mul_of_pos_right (by omega) positive
      omega

/-- Rounding depends on the value of a quotient alone. -/
theorem nearestRank_congr {num den num' den' : Nat} (positive : 0 < den) (positive' : 0 < den')
    (same : num * den' = num' * den) : nearestRank num den = nearestRank num' den' := by
  rw [nearestRank_eq_iff num positive]
  exact (rounds_nearestRank num' positive').congr positive' positive same.symm

end LoxLexer.Numeral
