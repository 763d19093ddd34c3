/-
# LoxLexer.Files.Path -- file paths in normal form

A path is a list of names behind one of three roots: none, `/`, or `//`, which is
kept apart from `/` as some systems do.  Doubled and trailing slashes and the name
`.` say nothing and are dropped when a path is read; the name `..` is kept, for
what it leads to is for the file system to say.  A path without root and names
is written `.`.
-/
namespace LoxLexer

set_option autoImplicit false

/-- A path in normal form. -/
structure Path where
  /-- The number of slashes in front: none, one or two. -/
  slashes : Nat
  names : List String
  deriving DecidableEq

namespace Path

/-- The pieces of a text between its slashes, one more than there are slashes. -/
def pieces : List Char → List (List Char)
  | [] => [[]]
  | c :: rest =>
      if c = '/' then [] :: pieces rest
      else
        match pieces rest with
        | [] => [[c]]
        | piece :: others => (c :: piece) :: others

/-- The slashes that make the root of a path with this many in front. -/
def rootSlashes (inFront : Nat) : Nat :=
  if inFront = 0 then 0 else if inFront = 2 then 2 else 1

/-- Whether a piece between slashes leads anywhere. -/
def isStep (piece : List Char) : Bool := piece ≠ [] && piece ≠ ['.']

/-- The path that a text names. -/
def ofText (text : String) : Path :=
  let inFront := (text.toList.takeWhile (· = '/')).length
  ⟨rootSlashes inFront, ((pieces text.toList).filter isStep).map String.ofList⟩

/-- A path as text. -/
def text (path : Path) : String :=
  if path.slashes = 0 ∧ path.names = [] then "."
  else String.ofList (List.replicate path.slashes '/') ++ String.intercalate "/" path.names

/-- Whether a path holds no U+0000, which no file system can be asked about. -/
def isAddressable (path : Path) : Bool := !path.text.toList.contains '\x00'

end Path

end LoxLexer
