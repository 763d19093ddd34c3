/-
# LoxLexer.Text.Newline -- one line ending for the text of a file

A text file may end its lines with LF, CR LF or a lone CR.  `Newline.unify` reads
all three as LF.  What a character is read as depends on it and on the character
before it alone: a CR is always read as LF, and an LF directly after a CR is not
read again.
-/
namespace LoxLexer.Text.Newline

set_option autoImplicit false

/-- What a character is read as, after the character `before` it. -/
def reading (before c : Char) : List Char :=
  if c = '\r' then ['\n']
  else if c = '\n' ∧ before = '\r' then []
  else [c]

/-- The text from here on, after the character `before` it. -/
def unifyAfter (before : Char) (text : List Char) : List Char :=
  ((before :: text).zip text).flatMap fun (before, c) => reading before c

/-- A text with each of LF, CR LF and lone CR as LF.  Nothing stands before the
first character, which any character but CR says as well. -/
def unify (text : List Char) : List Char := unifyAfter '\n' text

@[simp] theorem unifyAfter_nil (before : Char) : unifyAfter before [] = [] := by
  simp [unifyAfter]

@[simp] theorem unifyAfter_cons (before c : Char) (text : List Char) :
    unifyAfter before (c :: text) = reading before c ++ unifyAfter c text := by
  simp [unifyAfter]

end LoxLexer.Text.Newline
