/-
# LoxLexer.Scan.Basic -- one text, scanned from end to end

A `Scan` is what scanning a named text gives: its tokens, always closed by the
end of input, and a diagnostic for each complaint.  A scan never fails; callers
that want a text without complaints ask for `Scan.accepted`, which gives the
tokens or a `Rejection` holding all diagnostics.

A caller can have the reports passed to a sink of its own as well
(`Scan.ofTextInto`).  The scan itself is the same with and without it, and what
the sink held before never shows in the scan.
-/
import LoxLexer.Lexer.Reading

namespace LoxLexer

set_option autoImplicit false

/-- The tokens and diagnostics of a named text. -/
structure Scan where
  filename : String
  tokens : List Token
  diagnostics : List Diagnostic
  deriving DecidableEq

/-- A refusal of a text: its diagnostics, of which there is at least one. -/
structure Rejection where
  first : Diagnostic
  others : List Diagnostic
  deriving DecidableEq

namespace Rejection

def diagnostics (rejection : Rejection) : List Diagnostic := rejection.first :: rejection.others

/-- The refusal for these diagnostics, if there are any. -/
def ofDiagnostics? : List Diagnostic → Option Rejection
  | [] => none
  | first :: others => some ⟨first, others⟩

/-- Why no diagnostics make no refusal. -/
def emptyMessage : String := "ScanError requires at least one diagnostic."

end Rejection

namespace Scan

/-- The name of a text that came without one. -/
def unnamed : String := "<input>"

/-- Whether nothing was complained about. -/
def ok (scan : Scan) : Bool := scan.diagnostics.isEmpty

/-- What a finished lexer and the collector among its sinks have gathered. -/
def ofLexer {Sink : Type} (filename : String) (lexer : Lexer Sink) (collector : Collector) :
    Scan :=
  ⟨filename, lexer.tokens.toList, collector.diagnostics.toList⟩

/-- Scans a text. -/
def ofText (filename text : String) : Scan :=
  let lexer := (Lexer.ofText text.toList Collector.empty).run
  ofLexer filename lexer lexer.sink

/-- Scans a text and passes every report to `sink` too: the scan, and the sink
after it. -/
def ofTextInto {Sink : Type} [ReportSink Sink] (sink : Sink) (filename text : String) :
    Scan × Sink :=
  let lexer := (Lexer.ofText text.toList (Collector.empty, sink)).run
  (ofLexer filename lexer lexer.sink.1, lexer.sink.2)

/-- The tokens of a scan without diagnostics; else its refusal. -/
def accepted (scan : Scan) : Except Rejection (List Token) :=
  match Rejection.ofDiagnostics? scan.diagnostics with
  | none => .ok scan.tokens
  | some rejection => .error rejection

/-- Scans a text and refuses it if anything was complained about. -/
def check (filename text : String) : Except Rejection (List Token) :=
  (ofText filename text).accepted

/-! ## The dump -/

/-- A text with spaces before it up to a width. -/
def alignRight (width : Nat) (text : String) : String :=
  String.ofList (List.replicate (width - text.length) ' ') ++ text

/-- A token as one entry of a dump: its line, right-aligned, and its text. -/
def entry (token : Token) : String :=
  alignRight 4 (toString token.line) ++ " " ++ token.text ++ "\n"

/-- The tokens of a scan, for a reader. -/
def dump (scan : Scan) : String := String.join (scan.tokens.map entry)

end Scan

end LoxLexer
