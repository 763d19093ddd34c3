/-
# LoxLexer.Diagnostic -- one finding, for a program and for a reader

A diagnostic has a code, a message, the line it belongs to if it belongs to one,
and a hint that may be empty.  Hints go with codes; a code that the table does
not list has none.
-/
namespace LoxLexer

set_option autoImplicit false

structure Diagnostic where
  code : String
  message : String
  line : Option Int
  hint : String
  deriving DecidableEq

namespace Diagnostic

/-- The hint that goes with each code. -/
def hints : List (String × String) :=
  [("LEX001", "Only ASCII letters, digits, operators and punctuation are valid outside strings."),
   ("LEX002", "Close the string with a double quote."),
   ("CLI001", "Run lox --help for usage."),
   ("CLI002", "Check that the input file exists and is UTF-8 text."),
   ("CLI003", "Check that the output directory exists and is writable."),
   ("CLI999", "Run with --debug")]

/-- The hint for a code, empty if it has none. -/
def hintFor (code : String) : String := (hints.lookup code).getD ""

/-- A diagnostic with the hint of its code. -/
def ofCode (code message : String) (line : Option Int) : Diagnostic :=
  ⟨code, message, line, hintFor code⟩

/-- Where a diagnostic belongs, at the start of its line. -/
def place (diagnostic : Diagnostic) : String :=
  match diagnostic.line with
  | none => ""
  | some line => "[line " ++ toString line ++ "] "

/-- The hint at the end of a diagnostic's line. -/
def advice (diagnostic : Diagnostic) : String :=
  if diagnostic.hint = "" then "" else " Hint: " ++ diagnostic.hint

/-- A diagnostic as one line for a reader, without the line's end. -/
def display (diagnostic : Diagnostic) : String :=
  diagnostic.place ++ "Error " ++ diagnostic.code ++ ": " ++ diagnostic.message ++
    diagnostic.advice

/-- A diagnostic in a sentence of its own: code first, line last. -/
def summary (diagnostic : Diagnostic) : String :=
  "[" ++ diagnostic.code ++ "] " ++ diagnostic.message ++
    match diagnostic.line with
    | none => ""
    | some line => " (line " ++ toString line ++ ")"

end Diagnostic

end LoxLexer
