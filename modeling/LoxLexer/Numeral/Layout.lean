/-
# LoxLexer.Numeral.Layout -- how a double is written

A finite double is written with its shortest digits.  Which exponents are
written out in full and which with an `e` is a decision of the format, and so
are the names of the values that have no digits; a `Layout` holds both.  The
written exponent always has a sign and at least two digits.  A number without an
`e` always has a point with a digit on either side, so that it never looks like
an integer.
-/
import LoxLexer.Numeral.Decimal

namespace LoxLexer.Numeral

set_option autoImplicit false

/-- A format's decisions on numbers. -/
structure Layout where
  /-- The least power of ten of a leading digit that is written without `e`. -/
  leastPlain : Int
  /-- The first power of ten of a leading digit that is written with `e`. -/
  firstScientific : Int
  infinity : String
  notANumber : String

namespace Layout

def zeros (count : Nat) : List Char := List.replicate count '0'

/-- Digits with the point after the first `point` of them; zeros fill up where the
point lies outside the digits. -/
def plain (digits : List Char) (point : Int) : List Char :=
  if point ≤ 0 then
    '0' :: '.' :: (zeros (-point).toNat ++ digits)
  else if digits.length ≤ point.toNat then
    digits ++ zeros (point.toNat - digits.length) ++ ['.', '0']
  else
    digits.take point.toNat ++ '.' :: digits.drop point.toNat

/-- One digit, the point if more follow, and the exponent with its sign. -/
def scientific (digits : List Char) (exponent : Int) : List Char :=
  let size := Nat.toDigits 10 exponent.natAbs
  let fraction := if digits.length ≤ 1 then [] else '.' :: digits.drop 1
  digits.take 1 ++ fraction ++ 'e' :: (if exponent < 0 then '-' else '+') ::
    (zeros (2 - size.length) ++ size)

/-- A decimal without a sign. -/
def decimal (layout : Layout) (d : Decimal) : List Char :=
  let digits := Nat.toDigits 10 d.digits
  let point := digits.length + d.exponent
  if layout.leastPlain ≤ point - 1 ∧ point - 1 < layout.firstScientific then plain digits point
  else scientific digits (point - 1)

/-- The minus of a negative number, and of a negative zero. -/
def sign (negative : Bool) : List Char := if negative then ['-'] else []

/-- A double in this layout. -/
def write (layout : Layout) : Binary64 → List Char
  | .nan => layout.notANumber.toList
  | .infinite negative => sign negative ++ layout.infinity.toList
  | .finite negative rank =>
      sign negative ++
        if rank.val = 0 then ['0', '.', '0'] else layout.decimal (Decimal.shortest rank.val)

end Layout

end LoxLexer.Numeral
