/-
# LoxLexer.Text.Quoted -- a text between quotes, on one line

Messages quote a name so that its ends and its unusual characters can be seen.
The quote is `'`, or `"` for a text that holds `'` and no `"`.  A backslash and
the quote itself take a backslash; tab, LF and CR have their letters; every other
character that does not show itself is written by its number.
-/
import LoxLexer.Text.Hex
import LoxLexer.Text.Printable

namespace LoxLexer.Text

set_option autoImplicit false

/-- The quote that a text is put between. -/
def quoteFor (text : List Char) : Char :=
  if '\'' ∈ text ∧ '"' ∉ text then '"' else '\''

/-- One character between quotes, with the shortest of the three escapes that
holds its number. -/
def quotedChar (quote c : Char) : List Char :=
  if c = quote ∨ c = '\\' then ['\\', c]
  else if c = '\t' then ['\\', 't']
  else if c = '\n' then ['\\', 'n']
  else if c = '\r' then ['\\', 'r']
  else if isPrintable c then [c]
  else if c.toNat < 0x100 then '\\' :: 'x' :: hex 2 c.toNat
  else if c.toNat < 0x10000 then '\\' :: 'u' :: hex 4 c.toNat
  else '\\' :: 'U' :: hex 8 c.toNat

/-- A text between quotes. -/
def quoted (text : String) : String :=
  let quote := quoteFor text.toList
  String.ofList (quote :: text.toList.flatMap (quotedChar quote) ++ [quote])

end LoxLexer.Text
