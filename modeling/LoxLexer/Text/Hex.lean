/-
# LoxLexer.Text.Hex -- numbers in lower-case hexadecimal, of a least width

Escapes write a character by its number with a fixed count of digits.
-/
namespace LoxLexer.Text

set_option autoImplicit false

/-- `number` in lower-case hexadecimal, with zeros in front up to `width` digits. -/
def hex (width number : Nat) : List Char :=
  let digits := Nat.toDigits 16 number
  List.replicate (width - digits.length) '0' ++ digits

end LoxLexer.Text
