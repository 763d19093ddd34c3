/-
# LoxLexer.Report -- what the lexer reports, and who listens

The lexer never stops at malformed input: it hands a `Report` to a sink and goes
on.  A sink is any type with a `ReportSink` instance; the lexer can only add to
it and never looks into it, so a sink cannot influence the tokens.

* A `Collector` keeps each report as a diagnostic, with the code that goes with
  the message.
* A `Recorder` keeps the reports as they are.
* A pair of sinks passes each report to both.
-/
import LoxLexer.Diagnostic

namespace LoxLexer

set_option autoImplicit false

/-- One complaint about the source: a line and what is wrong there. -/
structure Report where
  line : Int
  message : String
  deriving DecidableEq

namespace Report

/-- The message for a character that can start no token. -/
def unexpectedCharacter : String := "Unexpected character."

/-- The message for a string with no closing quote. -/
def unterminatedString : String := "Unterminated string."

/-- The code that goes with a message; messages of others share one code. -/
def code (report : Report) : String :=
  if report.message = unexpectedCharacter then "LEX001"
  else if report.message = unterminatedString then "LEX002"
  else "LEX000"

/-- A report as a diagnostic. -/
def diagnostic (report : Report) : Diagnostic :=
  .ofCode report.code report.message (some report.line)

end Report

/-- A type that can take reports. -/
class ReportSink (Sink : Type) where
  /-- Adds one report. -/
  report : Sink → Report → Sink
  /-- Drops the reports taken so far. -/
  forget : Sink → Sink

/-- Keeps every report as a diagnostic, in order. -/
structure Collector where
  diagnostics : Array Diagnostic

namespace Collector

def empty : Collector := ⟨#[]⟩

instance : ReportSink Collector where
  report collector report := ⟨collector.diagnostics.push report.diagnostic⟩
  forget _ := empty

/-- Whether anything was reported since the collector was last emptied. -/
def hasErrors (collector : Collector) : Bool := !collector.diagnostics.isEmpty

@[simp] theorem toList_report (collector : Collector) (report : Report) :
    (ReportSink.report collector report).diagnostics.toList =
      collector.diagnostics.toList ++ [report.diagnostic] := by
  simp [ReportSink.report]

end Collector

/-- Keeps every report as it is, in order. -/
structure Recorder where
  reports : Array Report

namespace Recorder

def empty : Recorder := ⟨#[]⟩

instance : ReportSink Recorder where
  report recorder report := ⟨recorder.reports.push report⟩
  forget _ := empty

@[simp] theorem toList_report (recorder : Recorder) (report : Report) :
    (ReportSink.report recorder report).reports.toList = recorder.reports.toList ++ [report] := by
  simp [ReportSink.report]

end Recorder

/-- Both sinks of a pair get every report, and neither sees the other. -/
instance {First Second : Type} [ReportSink First] [ReportSink Second] :
    ReportSink (First × Second) where
  report sinks report := (ReportSink.report sinks.1 report, ReportSink.report sinks.2 report)
  forget sinks := (ReportSink.forget sinks.1, ReportSink.forget sinks.2)

namespace ReportSink

variable {Sink : Type} [ReportSink Sink]

/-- Adds reports in order. -/
def reportAll (sink : Sink) (reports : List Report) : Sink := reports.foldl report sink

@[simp] theorem reportAll_nil (sink : Sink) : reportAll sink [] = sink := by
  simp [reportAll]

@[simp] theorem reportAll_cons (sink : Sink) (first : Report) (others : List Report) :
    reportAll sink (first :: others) = reportAll (report sink first) others := by
  simp [reportAll]

@[simp] theorem reportAll_append (sink : Sink) (first second : List Report) :
    reportAll sink (first ++ second) = reportAll (reportAll sink first) second :=
  List.foldl_append

/-- Each sink of a pair gets all the reports. -/
@[simp] theorem reportAll_pair {Other : Type} [ReportSink Other] (sinks : Sink × Other)
    (reports : List Report) :
    reportAll sinks reports = (reportAll sinks.1 reports, reportAll sinks.2 reports) := by
  induction reports generalizing sinks with
  | nil => rfl
  | cons report rest ih => exact ih (ReportSink.report sinks report)

end ReportSink

@[simp] theorem Collector.toList_reportAll (collector : Collector) (reports : List Report) :
    (ReportSink.reportAll collector reports).diagnostics.toList =
      collector.diagnostics.toList ++ reports.map Report.diagnostic := by
  induction reports generalizing collector with
  | nil => simp
  | cons report rest ih => simp [ih]

@[simp] theorem Recorder.toList_reportAll (recorder : Recorder) (reports : List Report) :
    (ReportSink.reportAll recorder reports).reports.toList =
      recorder.reports.toList ++ reports := by
  induction reports generalizing recorder with
  | nil => simp
  | cons report rest ih => simp [ih]

end LoxLexer
