/-
# LoxLexer.Text.DecimalDigit -- the decimal digits of every script

Unicode 14.0 gives each script's decimal digits ten consecutive numbers, zero
first, so the zeros say it all.  Only the reading of a command line asks for
these; numerals of the language have ASCII digits.
-/
namespace LoxLexer.Text

set_option autoImplicit false

/-- The digit zero of each script that has decimal digits, in order. -/
def scriptZeros : List Nat :=
  [48, 1632, 1776, 1984, 2406, 2534, 2662, 2790, 2918, 3046, 3174, 3302, 3430, 3558, 3664, 3792,
   3872, 4160, 4240, 6112, 6160, 6470, 6608, 6784, 6800, 6992, 7088, 7232, 7248, 42528, 43216,
   43264, 43472, 43504, 43600, 44016, 65296, 66720, 68912, 69734, 69872, 69942, 70096, 70384,
   70736, 70864, 71248, 71360, 71472, 71904, 72016, 72784, 73040, 73120, 92768, 92864, 93008,
   120782, 120792, 120802, 120812, 120822, 123200, 123632, 125264, 130032]

/-- Whether a character is a decimal digit of some script. -/
def isDecimalDigit (c : Char) : Bool :=
  scriptZeros.any fun first => first ≤ c.toNat && c.toNat < first + 10

example : scriptZeros.length = 66 := by decide +kernel

end LoxLexer.Text
