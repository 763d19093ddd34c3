/-
# LoxLexer.Scan.File -- scans of files, and tokens kept in files

The scan of a file is named after its path in normal form.  A strict scan is
refused if anything was complained about, after the whole file has been scanned.
-/
import LoxLexer.Files.Access
import LoxLexer.Json.Export

namespace LoxLexer

set_option autoImplicit false

namespace Scan

/-- Why a file gives no scan. -/
inductive Refusal where
  | unreadable (fault : ReadFault)
  | rejected (rejection : Rejection)
  deriving DecidableEq

/-- A scan as it is, or, under `strict`, only if it has no diagnostics. -/
def demand (strict : Bool) (scan : Scan) : Except Rejection Scan :=
  if strict then scan.accepted.map fun _ => scan else .ok scan

variable {m : Type → Type} [Monad m] [FileAccess m]

/-- The scan of the file at a path. -/
def ofFile (path : Path) (strict : Bool) : m (Except Refusal Scan) := do
  match ← readText path with
  | .error fault => return .error (.unreadable fault)
  | .ok text => return ((ofText path.text text).demand strict).mapError .rejected

/-- Puts the JSON text of tokens into the file at a path. -/
def keepTokens (tokens : List Token) (path : Path) : m (Except AccessFault Unit) :=
  writeText path (printTokens Json.standardIndent tokens)

end Scan

end LoxLexer
