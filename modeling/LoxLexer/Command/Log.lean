/-
# LoxLexer.Command.Log -- the records of a debug run

A debug run tells on standard error what happened: one record for each report as
the lexer made it, one when the lexer was done, from the lexer's own counts, and
one for the scan that came of it.

A run that ends in an internal error tells one thing more, after all of these: where
in the program it happened.  That record names places in the program's own text and
nothing of what was scanned; it has no constructor here, and the standard error of
such a run is given without it.
-/
import LoxLexer.Scan.Basic

namespace LoxLexer

set_option autoImplicit false

/-- Something worth a line in a debug run. -/
inductive LogRecord where
  | reported (report : Report)
  | lexed (tokens lines errors : Nat)
  | scanned (filename : String) (tokens errors : Nat)
  deriving DecidableEq

namespace LogRecord

def text : LogRecord → String
  | reported report =>
      "line " ++ toString report.line ++ ": " ++ report.message ++ " (" ++ report.code ++ ")"
  | lexed tokens lines errors =>
      "scanned " ++ toString tokens ++ " tokens over " ++ toString lines ++ " lines, " ++
        toString errors ++ " errors"
  | scanned filename tokens errors =>
      filename ++ ": tokens=" ++ toString tokens ++ " errors=" ++ toString errors

/-- A record as a line on standard error. -/
def line (record : LogRecord) : String := "[DEBUG] " ++ record.text ++ "\n"

end LogRecord

/-- Scans a text and keeps the records of doing so. -/
def Scan.traced (filename text : String) : Scan × List LogRecord :=
  let lexer := (Lexer.ofText text.toList (Collector.empty, Recorder.empty)).run
  let scan := ofLexer filename lexer lexer.sink.1
  (scan,
    lexer.sink.2.reports.toList.map .reported ++
      [.lexed lexer.tokens.size lexer.line lexer.complaints,
       .scanned filename scan.tokens.length scan.diagnostics.length])

end LoxLexer
