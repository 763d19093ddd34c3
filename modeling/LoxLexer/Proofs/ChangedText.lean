/-
# LoxLexer.Proofs.ChangedText -- what is found, with its text changed

A text is changed, character by character or otherwise, and it is asked what becomes of
its tokens.  What may change with the text is the lexeme of a token and the value of a
string.  Kinds, lines, numbers and reports are no text, so a statement that what is found
is only `mapText`ped says that these stay.
-/
import LoxLexer.Proofs.LongestMatch

namespace LoxLexer

set_option autoImplicit false

variable (change : List Char → List Char)

def Literal.mapText : Literal → Literal
  | .string text => .string (String.ofList (change text.toList))
  | literal => literal

/-- A token with its lexeme and the value of a string changed. -/
def Token.mapText (token : Token) : Token :=
  { token with
    lexeme := String.ofList (change token.lexeme.toList)
    literal := token.literal.mapText change }

def Segment.Outcome.mapText : Segment.Outcome → Segment.Outcome
  | .token kind literal => .token kind (literal.mapText change)
  | outcome => outcome

def Piece.mapText (piece : Piece) : Piece := ⟨change piece.text, piece.outcome.mapText change⟩

def Find.mapText : Find → Find
  | .token found => .token (found.mapText change)
  | .report found => .report found

@[simp] theorem Piece.find?_mapText (line : Nat) (piece : Piece) :
    (piece.mapText change).find? line = (piece.find? line).map (Find.mapText change) := by
  obtain ⟨text, outcome⟩ := piece
  cases outcome <;>
    simp [Piece.mapText, Piece.find?, Segment.Outcome.mapText, Find.mapText, Token.mapText]

theorem filterMap_token?_mapText (found : List Find) :
    (found.map (Find.mapText change)).filterMap Find.token? =
      (found.filterMap Find.token?).map (Token.mapText change) := by
  rw [List.filterMap_map, List.map_filterMap]
  congr 1
  funext find
  cases find <;> rfl

theorem filterMap_report?_mapText (found : List Find) :
    (found.map (Find.mapText change)).filterMap Find.report? = found.filterMap Find.report? := by
  rw [List.filterMap_map]
  congr 1
  funext find
  cases find <;> rfl

theorem Token.mapText_endOfInput (empty : change [] = []) (line : Int) :
    (Token.endOfInput line).mapText change = .endOfInput line := by
  simp [Token.endOfInput, Token.mapText, Literal.mapText, empty]

end LoxLexer
