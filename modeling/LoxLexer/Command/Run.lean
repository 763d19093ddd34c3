/-
# LoxLexer.Command.Run -- carrying out an invocation

A run obtains the source text, scans it, and answers: `tokens` with the dump or
the JSON text of the scan, on standard output or in a file, and `check` with `OK`
if there are no diagnostics.  The diagnostics go to standard error, after the
output is written.  The exit code tells the cases apart: 0 without diagnostics, 1
with some, 2 if the source could not be obtained or the output not written, 3 for
anything else.

Everything a run does to files goes through `FileAccess`.  It writes at most one
file, the one it was told to, and only after the whole source has been scanned.

Words and texts consist of characters that UTF-8 can write.  A word whose bytes are
no UTF-8 has no counterpart here: such a text can be scanned, but when it is written
to a file the file is emptied first and the writing fails then.
-/
import LoxLexer.Command.Arguments
import LoxLexer.Command.Log
import LoxLexer.Files.Access
import LoxLexer.Json.Export

namespace LoxLexer

set_option autoImplicit false

/-! ## Failures -/

/-- Why a run ends without an answer. -/
inductive Command.Failure where
  | bothSources
  | noSource
  | unreadable (path : Path) (fault : ReadFault)
  | unwritable (path : Path) (fault : AccessFault)
  deriving DecidableEq

namespace Command.Failure

/-- Whether a failure is an internal error: a path that no file system can be asked
about, whichever way it is used. -/
def isInternal : Command.Failure → Bool
  | unreadable _ (.access .unaddressable) => true
  | unwritable _ .unaddressable => true
  | _ => false

/-- The code of a failure. -/
def code (failure : Command.Failure) : String :=
  if failure.isInternal then "CLI999"
  else
    match failure with
    | bothSources => "CLI001"
    | noSource => "CLI001"
    | unreadable _ _ => "CLI002"
    | unwritable _ _ => "CLI003"

/-- What a failure means for the run, before the details. -/
def lead (failure : Command.Failure) : String :=
  if failure.isInternal then "Internal error: "
  else
    match failure with
    | bothSources => ""
    | noSource => ""
    | unreadable _ _ => "Cannot read input: "
    | unwritable _ _ => "Cannot write output: "

/-- The details of a failure. -/
def details : Command.Failure → String
  | bothSources => "Use either input file path or --code, not both."
  | noSource => "No source provided. Pass input file path or --code."
  | unreadable path fault => fault.message path
  | unwritable path fault => fault.message path

/-- A failure as a diagnostic, which belongs to no line. -/
def diagnostic (failure : Command.Failure) : Diagnostic :=
  .ofCode failure.code (failure.lead ++ failure.details) none

/-- The exit code of a failure: 3 for an internal error, else 2. -/
def exitCode (failure : Command.Failure) : Nat := if failure.isInternal then 3 else 2

end Command.Failure

/-! ## Responses -/

/-- What a run leaves behind besides files. -/
structure Response where
  exitCode : Nat
  stdout : String
  stderr : String
  deriving DecidableEq

namespace Response

/-- Texts as lines. -/
def lines (texts : List String) : String := String.join (texts.map (· ++ "\n"))

/-- The answer to a scanned source, after the log. -/
def ofScan (log stdout : String) (scan : Scan) : Response :=
  ⟨if scan.ok then 0 else 1, stdout, log ++ lines (scan.diagnostics.map Diagnostic.display)⟩

/-- The answer to a failure, after the log.  In a debug run an internal error also
leaves its trace in the log, which is left out (see `LogRecord`). -/
def ofFailure (log : String) (failure : Command.Failure) : Response :=
  ⟨failure.exitCode, "", log ++ lines [failure.diagnostic.display]⟩

end Response

namespace Invocation

/-- The name of a text given on the command line. -/
def inlineName : String := "<inline>"

/-- What `tokens` writes. -/
def rendering (invocation : Invocation) (scan : Scan) : String :=
  if invocation.json then scan.print Json.standardIndent ++ "\n" else scan.dump

variable {m : Type → Type} [Monad m] [FileAccess m]

/-- Answers with a scan, after the log of scanning. -/
def deliver (invocation : Invocation) (log : String) (scan : Scan) : m Response :=
  match invocation.command with
  | .check => return .ofScan log (if scan.ok then "OK\n" else "") scan
  | .tokens =>
      match invocation.target? with
      | none => return .ofScan log (invocation.rendering scan) scan
      | some path => do
          match ← writeText path (invocation.rendering scan) with
          | .ok () => return .ofScan log "" scan
          | .error fault => return .ofFailure log (.unwritable path fault)

/-- Scans a text and answers.  The log is kept only in a debug run. -/
def answer (invocation : Invocation) (debug : Bool) (filename text : String) : m Response :=
  let (scan, records) := Scan.traced filename text
  let log := if debug then String.join (records.map LogRecord.line) else ""
  invocation.deliver log scan

/-- Carries out an invocation; `debug` turns on a debug run that the invocation
does not ask for itself. -/
def run (invocation : Invocation) (debug : Bool) : m Response := do
  let debug := invocation.debug || debug
  match invocation.source with
  | .both => return .ofFailure "" .bothSources
  | .neither => return .ofFailure "" .noSource
  | .inline text => invocation.answer debug inlineName text
  | .file path =>
      match ← readText path with
      | .error fault => return .ofFailure "" (.unreadable path fault)
      | .ok text => invocation.answer debug path.text text

end Invocation

/-! ## Command lines -/

/-- What a command line comes to. -/
inductive Command.Ending where
  | help
  | refused
  | response (response : Response)

/-- Reads a command line and carries out what it asks for.  The environment turns
debugging on with any text that is not empty. -/
def Command.execute {m : Type → Type} [Monad m] [FileAccess m] (words : List String)
    (environment : Option String) : m Command.Ending := do
  match Command.read words with
  | .help => return .help
  | .refused => return .refused
  | .invocation invocation =>
      return .response (← invocation.run (environment.getD "" ≠ ""))

end LoxLexer
