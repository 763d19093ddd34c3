/-
# LoxLexer.Json.Export -- tokens, diagnostics and scans as JSON

Members stand in the alphabetical order of their names.  A diagnostic that
belongs to no line has no `line` member; every other member is always there.
-/
import LoxLexer.Json.Printer
import LoxLexer.Scan.Basic

namespace LoxLexer

set_option autoImplicit false

def Literal.toJson : Literal → Json
  | .none => .null
  | .string text => .string text
  | .number value => .double value

def Token.toJson (token : Token) : Json :=
  .object
    [("lexeme", .string token.lexeme),
     ("line", .integer token.line),
     ("literal", token.literal.toJson),
     ("type", .string token.kind.name)]

/-- The line of a diagnostic as a member, if it has one. -/
def Diagnostic.lineMember (diagnostic : Diagnostic) : List (String × Json) :=
  match diagnostic.line with
  | none => []
  | some line => [("line", .integer line)]

def Diagnostic.toJson (diagnostic : Diagnostic) : Json :=
  .object <|
    [("code", .string diagnostic.code), ("hint", .string diagnostic.hint)] ++
      diagnostic.lineMember ++ [("message", .string diagnostic.message)]

/-- Tokens as an array. -/
def tokensJson (tokens : List Token) : Json := .array (tokens.map Token.toJson)

def Scan.toJson (scan : Scan) : Json :=
  .object
    [("diagnostics", .array (scan.diagnostics.map Diagnostic.toJson)),
     ("file", .string scan.filename),
     ("ok", .bool scan.ok),
     ("tokens", tokensJson scan.tokens)]

namespace Json

/-- The indent of texts for which no other is asked. -/
def standardIndent : Option Int := some 2

end Json

/-- The JSON text of a token list. -/
def printTokens (indent : Option Int) (tokens : List Token) : String :=
  (tokensJson tokens).print indent

/-- The JSON text of a scan. -/
def Scan.print (indent : Option Int) (scan : Scan) : String := scan.toJson.print indent

end LoxLexer
