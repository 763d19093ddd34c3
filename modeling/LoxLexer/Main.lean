/-
# LoxLexer.Main -- the command line program

The outer layer: the real file system, the real streams and the exit code.  What
is read and written, in which words and in which order, is decided by
`Command.execute`.
-/
import LoxLexer.Command.Run

namespace LoxLexer

set_option autoImplicit false

/-- The number of a system failure.  Some system calls give it negated. -/
def systemNumber (code : UInt32) : Nat :=
  if code.toNat < 0x80000000 then code.toNat else 0x100000000 - code.toNat

/-- A failure of the system; one without a number counts as a failed transfer. -/
def FileFault.ofSystem : IO.Error → FileFault
  | .noFileOrDirectory _ code details => .ofNumber (systemNumber code) details
  | .inappropriateType _ code details => .ofNumber (systemNumber code) details
  | .permissionDenied _ code details => .ofNumber (systemNumber code) details
  | .resourceExhausted _ code details => .ofNumber (systemNumber code) details
  | .invalidArgument _ code details => .ofNumber (systemNumber code) details
  | .otherError code details => .ofNumber (systemNumber code) details
  | failure => .other 5 failure.toString

instance : FileAccess IO where
  read path := do
    try return .ok (← IO.FS.readBinFile path.text).toList
    catch failure => return .error (.ofSystem failure)
  write path bytes := do
    try return .ok (← IO.FS.writeBinFile path.text ⟨bytes.toArray⟩)
    catch failure => return .error (.ofSystem failure)

/-- What help shows. -/
def usage : String :=
  "usage: lox tokens [input] [--code TEXT] [--json] [-o FILE] [--debug]\n" ++
  "       lox check [input] [--code TEXT] [--debug]\n"

end LoxLexer

open LoxLexer in
/-- Carries out one command line. -/
def main (words : List String) : IO UInt32 := do
  match ← Command.execute words (← IO.getEnv "LOX_DEBUG") with
  | .help =>
      (← IO.getStdout).putStr usage
      return 0
  | .refused =>
      (← IO.getStderr).putStr usage
      return 2
  | .response response =>
      (← IO.getStdout).putStr response.stdout
      (← IO.getStderr).putStr response.stderr
      return response.exitCode.toUInt32
