/-
# LoxLexer.Token.Basic -- tokens and their one-line text

A token is its kind, the exact source text it was cut from, the value of a string
or number literal, and the line on which it ends.  `Token.text` is the form a
reader sees: the kind in angle brackets with the literal's value, and for an
identifier the name too.
-/
import LoxLexer.Numeral.Layout
import LoxLexer.Token.Kind

namespace LoxLexer

set_option autoImplicit false

open Numeral (Binary64 Layout)

/-- The value a token denotes, if its kind denotes one. -/
inductive Literal where
  | none
  | string (text : String)
  | number (value : Binary64)
  deriving DecidableEq

namespace Literal

/-- Equality of values: numbers are compared as numbers. -/
def equals : Literal → Literal → Bool
  | .none, .none => true
  | .string a, .string b => a = b
  | .number a, .number b => a.equals b
  | _, _ => false

/-- In a token's text the exponent is written from `10 ^ 16` up and below
`10 ^ -4`. -/
def numbers : Layout := ⟨-4, 16, "inf", "nan"⟩

/-- A literal in a token's text: nothing, or a colon and the value, of a string
its bare characters. -/
def text : Literal → String
  | .none => ""
  | .string text => ":" ++ text
  | .number value => ":" ++ String.ofList (numbers.write value)

end Literal

/-- A token.  Lines count from one; a token's line is that of its last character. -/
structure Token where
  kind : Kind
  lexeme : String
  literal : Literal
  line : Int
  deriving DecidableEq

namespace Token

/-- Equality of tokens, literals being compared as values. -/
def equals (a b : Token) : Bool :=
  a.kind = b.kind && a.lexeme = b.lexeme && a.literal.equals b.literal && a.line = b.line

/-- The name of an identifier; the other kinds say all by their kind and literal. -/
def nameText (token : Token) : String :=
  if token.kind = .identifier then ":" ++ token.lexeme else ""

/-- A token on its own. -/
def text (token : Token) : String :=
  "<" ++ token.kind.name ++ token.literal.text ++ token.nameText ++ ">"

/-- The token that ends every token list. -/
def endOfInput (line : Int) : Token := ⟨.endOfInput, "", .none, line⟩

end Token

end LoxLexer
