/-
# LoxLexer.Token.Keyword -- the reserved words

Sixteen words of the language are not identifiers.  A word is looked up by its
exact spelling, so `Class` and `classes` are identifiers.
-/
namespace LoxLexer

set_option autoImplicit false

/-- A reserved word. -/
inductive Keyword where
  | and_ | class_ | else_ | false_ | fun_ | for_ | if_ | nil_
  | or_ | print_ | return_ | super_ | this_ | true_ | var_ | while_
  deriving DecidableEq

namespace Keyword

/-- Every reserved word, in the order in which their kinds are numbered. -/
def all : List Keyword :=
  [and_, class_, else_, false_, fun_, for_, if_, nil_, or_, print_, return_, super_, this_,
   true_, var_, while_]

def spelling : Keyword → String
  | and_ => "and"
  | class_ => "class"
  | else_ => "else"
  | false_ => "false"
  | fun_ => "fun"
  | for_ => "for"
  | if_ => "if"
  | nil_ => "nil"
  | or_ => "or"
  | print_ => "print"
  | return_ => "return"
  | super_ => "super"
  | this_ => "this"
  | true_ => "true"
  | var_ => "var"
  | while_ => "while"

/-- The reserved word with this spelling. -/
def ofSpelling? (text : String) : Option Keyword := all.find? fun word => word.spelling = text

/-- Every reserved word, in alphabetical order. -/
def alphabetical : List Keyword := all.mergeSort fun a b => a.spelling ≤ b.spelling

@[simp] theorem mem_all (word : Keyword) : word ∈ all := by cases word <;> decide

@[simp] theorem ofSpelling?_spelling (word : Keyword) : ofSpelling? word.spelling = some word := by
  cases word <;> decide

theorem spelling_of_ofSpelling? {text : String} {word : Keyword}
    (found : ofSpelling? text = some word) : word.spelling = text := by
  simpa using List.find?_some found

end Keyword

end LoxLexer
