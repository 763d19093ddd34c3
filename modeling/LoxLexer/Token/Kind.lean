/-
# LoxLexer.Token.Kind -- the kinds of tokens

Thirty-nine kinds: punctuation and operators, the three kinds that stand for many
lexemes, one for each reserved word, and the end of the input.  Outside the
program a kind goes by its `name`, in capitals; `ofName?` reads it back.
-/
import LoxLexer.Text.Quoted
import LoxLexer.Token.Keyword

namespace LoxLexer

set_option autoImplicit false

/-- What a token is, apart from its text. -/
inductive Kind where
  | leftParen | rightParen | leftBrace | rightBrace | comma | dot | minus | plus | semicolon
  | slash | star
  | bang | bangEqual | equal | equalEqual | greater | greaterEqual | less | lessEqual
  | identifier | string | number
  | keyword (word : Keyword)
  | endOfInput
  deriving DecidableEq

namespace Kind

/-- Every kind, in the order in which they are numbered. -/
def all : List Kind :=
  [leftParen, rightParen, leftBrace, rightBrace, comma, dot, minus, plus, semicolon, slash, star,
   bang, bangEqual, equal, equalEqual, greater, greaterEqual, less, lessEqual,
   identifier, string, number] ++ Keyword.all.map keyword ++ [endOfInput]

/-- The name of a kind.  A reserved word's kind is its spelling in capitals. -/
def name : Kind → String
  | leftParen => "LEFT_PAREN"
  | rightParen => "RIGHT_PAREN"
  | leftBrace => "LEFT_BRACE"
  | rightBrace => "RIGHT_BRACE"
  | comma => "COMMA"
  | dot => "DOT"
  | minus => "MINUS"
  | plus => "PLUS"
  | semicolon => "SEMICOLON"
  | slash => "SLASH"
  | star => "STAR"
  | bang => "BANG"
  | bangEqual => "BANG_EQUAL"
  | equal => "EQUAL"
  | equalEqual => "EQUAL_EQUAL"
  | greater => "GREATER"
  | greaterEqual => "GREATER_EQUAL"
  | less => "LESS"
  | lessEqual => "LESS_EQUAL"
  | identifier => "IDENTIFIER"
  | string => "STRING"
  | number => "NUMBER"
  | keyword word => String.ofList (word.spelling.toList.map Char.toUpper)
  | endOfInput => "EOF"

/-- The kind with this name. -/
def ofName? (text : String) : Option Kind := all.find? fun kind => kind.name = text

/-- A name that no kind has. -/
structure Unknown where
  name : String
  deriving DecidableEq

/-- An unknown name is shown between quotes. -/
def Unknown.message (unknown : Unknown) : String := Text.quoted unknown.name

/-- The kind with this name, or the complaint that there is none. -/
def named (text : String) : Except Unknown Kind :=
  match ofName? text with
  | some kind => .ok kind
  | none => .error ⟨text⟩

/-- Every kind with its number, counted from one. -/
def numbered : List (Kind × Nat) := all.zipIdx 1

/-- The kind of a word: its own if the word is reserved, else `identifier`. -/
def ofWord (text : String) : Kind := ((Keyword.ofSpelling? text).map keyword).getD identifier

@[simp] theorem ofWord_spelling (word : Keyword) : ofWord word.spelling = keyword word := by
  simp [ofWord]

theorem ofWord_of_unreserved {text : String} (unreserved : ∀ word : Keyword, word.spelling ≠ text) :
    ofWord text = identifier := by
  cases found : Keyword.ofSpelling? text with
  | none => simp [ofWord, found]
  | some word => exact absurd (Keyword.spelling_of_ofSpelling? found) (unreserved word)

@[simp] theorem mem_all (kind : Kind) : kind ∈ all := by
  cases kind with
  | keyword word => simp [all]
  | _ => decide

@[simp] theorem ofName?_name (kind : Kind) : ofName? kind.name = some kind := by
  cases kind with
  | keyword word => cases word <;> decide +kernel
  | _ => decide +kernel

end Kind

end LoxLexer
