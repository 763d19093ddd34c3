/-
# LoxLexer.Numeral.Decimal -- the fewest digits that read back

A `Decimal` is a point `digits * 10 ^ exponent` of a decimal grid.  Each positive
double is the nearest one to a whole interval of reals, whose ends lie half way
to its neighbours; the ends themselves belong to it exactly when its rank is
even.  `Decimal.shortest` searches the grids from coarse to fine, one digit to
seventeen, and on each tests the two grid points next to the double.  The first
grid with a point inside the interval wins, and of two points inside the nearer
one does.  If the interval holds any point of a grid it holds one of those two,
so no shorter decimal reads back.

All comparisons are made in *half units*, `2 ^ -1075`, in which the ends of every
interval are integers.
-/
import LoxLexer.Numeral.Binary64

namespace LoxLexer.Numeral

set_option autoImplicit false

/-- The number `digits * 10 ^ exponent`. -/
structure Decimal where
  digits : Nat
  exponent : Int
  deriving DecidableEq

namespace Decimal

/-! ## Comparing a decimal with half units -/

/-- A decimal in half units, multiplied by the denominator of its power of ten. -/
def scaled (d : Decimal) : Nat := d.digits * Nat.pow 10 d.exponent.toNat * Nat.pow 2 1075

/-- A count of half units, multiplied by the denominator of `10 ^ exponent`. -/
def scaleHalfUnits (exponent : Int) (count : Nat) : Nat := count * Nat.pow 10 (-exponent).toNat

/-- Whether a decimal rounds to the positive double of this rank. -/
def readsBack (rank : Nat) (d : Decimal) : Bool :=
  let low := scaleHalfUnits d.exponent (units (rank - 1) + units rank)
  let high := scaleHalfUnits d.exponent (units rank + units (rank + 1))
  if rank % 2 = 0 then low ≤ d.scaled && d.scaled ≤ high
  else low < d.scaled && d.scaled < high

/-! ## The search -/

/-- The last grid point not above the double. -/
def below (rank : Nat) (exponent : Int) : Decimal :=
  ⟨scaleHalfUnits exponent (2 * units rank) / (Nat.pow 10 exponent.toNat * Nat.pow 2 1075),
    exponent⟩

/-- The grid point after `below`. -/
def above (rank : Nat) (exponent : Int) : Decimal :=
  ⟨(below rank exponent).digits + 1, exponent⟩

/-- Of the two grid points next to the double, the nearer one; of two equally
near, the one with even digits. -/
def nearer (rank : Nat) (exponent : Int) : Decimal :=
  let low := below rank exponent
  let high := above rank exponent
  let middle := scaleHalfUnits exponent (2 * units rank)
  let toLow := middle - low.scaled
  let toHigh := high.scaled - middle
  if toLow < toHigh then low
  else if toHigh < toLow then high
  else if low.digits % 2 = 0 then low
  else high

/-- The point of one grid that stands for the double, if the grid has one. -/
def onGrid? (rank : Nat) (exponent : Int) : Option Decimal :=
  let low := below rank exponent
  let high := above rank exponent
  if readsBack rank low then
    if readsBack rank high then some (nearer rank exponent) else some low
  else
    if readsBack rank high then some high else none

/-- The exponent `t` with `10 ^ (t - 1) ≤ x < 10 ^ t` for the positive double `x`
of this rank.  From one up it counts the digits of the integer part.  Below one,
`x < 10 ^ t` says that `1 / x` is above `10 ^ -t`, so it counts those of the last
integer below `1 / x`. -/
def top (rank : Nat) : Int :=
  if Nat.pow 2 1074 ≤ units rank then (Nat.toDigits 10 (units rank / Nat.pow 2 1074)).length
  else 1 - (Nat.toDigits 10 ((Nat.pow 2 1074 - 1) / units rank)).length

/-- The double itself: a power of a half is as many decimal places of a power of
five. -/
def exact (rank : Nat) : Decimal := ⟨units rank * Nat.pow 5 1074, -1074⟩

/-- The same number with no zero at the end of its digits. -/
def trim (d : Decimal) : Decimal :=
  if shrinks : d.digits ≠ 0 ∧ d.digits % 10 = 0 then trim ⟨d.digits / 10, d.exponent + 1⟩ else d
termination_by d.digits
decreasing_by exact Nat.div_lt_self (Nat.pos_of_ne_zero shrinks.1) (by decide)

/-- The shortest decimal that rounds to the positive double of this rank; of
those the nearest to it.  Seventeen digits always suffice, so the exact value is
never reached. -/
def shortest (rank : Nat) : Decimal :=
  let first := top rank
  let grids := (List.range 17).map fun (more : Nat) => first - (more + 1)
  ((grids.findSome? (onGrid? rank)).getD (exact rank)).trim

end Decimal

end LoxLexer.Numeral
