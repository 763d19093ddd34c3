/-
# LoxLexer.Numeral.Reading -- from the text of a number to its double

Two readers.  `ofNumeral` is for the numerals of the language, digits with an
optional point and more digits; it is total, since the lexer hands it nothing
else.  `read?` is for the wider form in which doubles are exchanged: a sign, a
decimal with an optional exponent, or the name of a value without digits.

Both are exact at any length.  An exponent too large or too small to matter is
answered without computing its power of ten (`scaled`), as `1e999999999` names a
power of ten that no memory holds.
-/
import LoxLexer.Numeral.Binary64

namespace LoxLexer.Numeral.Binary64

set_option autoImplicit false

/-- The double nearest to the decimal whose digits these are, the point standing
between them. -/
def ofDigits (negative : Bool) (whole fraction : List Char) : Binary64 :=
  ofDecimal negative (Nat.ofDigitChars 10 (whole ++ fraction) 0) (-fraction.length)

/-- The double that a numeral, `digits` or `digits.digits`, denotes. -/
def ofNumeral (text : List Char) : Binary64 :=
  ofDigits false (text.takeWhile Char.isDigit) ((text.dropWhile Char.isDigit).drop 1)

/-- As `ofDecimal`, with the exponents that no double reaches settled first: from
`10 ^ 400` every number is infinite, and below `10 ^ -400` every number rounds
to zero. -/
def scaled (negative : Bool) (digits : Nat) (exponent : Int) : Binary64 :=
  if digits = 0 then zero negative
  else if 400 < exponent then .infinite negative
  else if exponent + (Nat.toDigits 10 digits).length < -400 then zero negative
  else ofDecimal negative digits exponent

/-- A run of digits with an optional sign. -/
def exponent? (text : List Char) : Option Int :=
  let (negative, digits) := match text with
    | '-' :: rest => (true, rest)
    | '+' :: rest => (false, rest)
    | _ => (false, text)
  if digits.isEmpty || !digits.all Char.isDigit then none
  else
    let size : Int := Nat.ofDigitChars 10 digits 0
    some (if negative then -size else size)

/-- An unsigned decimal: digits on at least one side of an optional point, and an
optional exponent. -/
def decimal? (negative : Bool) (text : List Char) : Option Binary64 :=
  let whole := text.takeWhile Char.isDigit
  let afterWhole := text.dropWhile Char.isDigit
  let (fraction, afterFraction) := match afterWhole with
    | '.' :: rest => (rest.takeWhile Char.isDigit, rest.dropWhile Char.isDigit)
    | _ => ([], afterWhole)
  if whole.isEmpty && fraction.isEmpty then none
  else
    match afterFraction with
    | [] => some (ofDigits negative whole fraction)
    | mark :: rest =>
        if mark = 'e' || mark = 'E' then
          (exponent? rest).map fun exponent =>
            scaled negative (Nat.ofDigitChars 10 (whole ++ fraction) 0) (exponent - fraction.length)
        else none

/-- A number without its sign. -/
def unsigned? (negative : Bool) (text : List Char) : Option Binary64 :=
  let name := String.ofList (text.map Char.toLower)
  if name = "inf" || name = "infinity" then some (.infinite negative)
  else if name = "nan" then some .nan
  else decimal? negative text

/-- The double that a text names. -/
def read? (text : List Char) : Option Binary64 :=
  match text with
  | '-' :: rest => unsigned? true rest
  | '+' :: rest => unsigned? false rest
  | _ => unsigned? false text

end LoxLexer.Numeral.Binary64
