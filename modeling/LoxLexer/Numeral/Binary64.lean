/-
# LoxLexer.Numeral.Binary64 -- the doubles, and rounding to the nearest one

A number literal denotes a double: an IEEE 754 binary64 datum.  The finite
magnitudes are numbered from zero upwards by their *rank*, so that the next
larger double always has the next rank.  In units of `2 ^ -1074`, the least
positive double, rank `r` has the magnitude `units r`:

* the first `2 ^ 52` ranks are the subnormal magnitudes `0, 1, 2, …`;
* each later block of `2 ^ 52` ranks is one binade, whose spacing is twice the
  spacing of the binade below it.

Rounding is done on exact quotients of natural numbers (`nearest`), so it is
correct at any length of numerator and denominator: a tie goes to the even rank,
a carry into the next binade is the next rank, and a rank past the last finite
one is an infinity.
-/
namespace LoxLexer.Numeral

set_option autoImplicit false

-- Powers are spelled `Nat.pow`: the term of `^` depends on the instances in scope.

/-- The number of magnitudes in one binade. -/
def binadeSize : Nat := Nat.pow 2 52

/-- The number of finite magnitudes: the subnormal block and 2046 binades. -/
def rankBound : Nat := 2047 * binadeSize

/-- The magnitude of a rank, in units of the least positive double.  It is
defined past `rankBound` too, where it continues the last spacing rule: half the
way to the first such magnitude is where rounding starts to give infinity. -/
def units (rank : Nat) : Nat :=
  if rank / binadeSize = 0 then rank
  else (binadeSize + rank % binadeSize) * Nat.pow 2 (rank / binadeSize - 1)

/-- The integer nearest to `num / den`; of two equally near ones, the even one. -/
def roundHalfEven (num den : Nat) : Nat :=
  let low := num / den
  let twice := 2 * (num % den)
  if twice < den then low
  else if den < twice then low + 1
  else low + low % 2

/-- The rank whose magnitude is nearest to `num / den` units.  The quotient is
scaled down until its integer part has at most 53 bits, rounded, and counted on
from the first rank of that scale.  Rounding up to 53 full bits carries into
the next binade by itself, because ranks are consecutive. -/
def nearestRank (num den : Nat) : Nat :=
  let scale := (num / den).log2 - 52
  scale * binadeSize + roundHalfEven num (den * Nat.pow 2 scale)

/-- An IEEE 754 binary64 datum.  The payload of a NaN is not kept. -/
inductive Binary64 where
  | nan
  | infinite ( negative : Bool)
  | finite ( negative : Bool) (rank : Fin rankBound)
  deriving DecidableEq

namespace Binary64

/-- Zero of either sign. -/
def zero (negative : Bool) : Binary64 := .finite negative ⟨0, by decide⟩

/-- The double of a sign and a rank; past the finite ranks lies infinity. -/
def ofRank (negative : Bool) (rank : Nat) : Binary64 :=
  if bounded : rank < rankBound then .finite negative ⟨rank, bounded⟩ else .infinite negative

/-- The double nearest to `num / den`, ties to even. -/
def nearest (negative : Bool) (num den : Nat) : Binary64 :=
  ofRank negative (nearestRank (num * Nat.pow 2 1074) den)

/-- The double nearest to `digits * 10 ^ exponent`, ties to even. -/
def ofDecimal (negative : Bool) (digits : Nat) (exponent : Int) : Binary64 :=
  match exponent with
  | .ofNat up => nearest negative (digits * Nat.pow 10 up) 1
  | .negSucc down => nearest negative digits (Nat.pow 10 (down + 1))

/-- Equality of numbers: the two zeros are equal, and a NaN equals nothing. -/
def equals : Binary64 → Binary64 → Bool
  | .infinite a, .infinite b => a = b
  | .finite a r, .finite b s => r = s && (a = b || r.val = 0)
  | _, _ => false

end Binary64

end LoxLexer.Numeral
