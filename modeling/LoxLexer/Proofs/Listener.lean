/-
# LoxLexer.Proofs.Listener -- an extra listener hears everything and changes nothing

A caller may have the reports of a scan passed on to a sink of its own.  The scan is then
made with a pair of sinks, its own collector and the caller's sink, and neither must see
what the other holds: the collector starts empty whatever the sink was told before, and
the sink keeps what it was told before whatever the collector makes of the reports.

The main statement, `listener_hears_all`, says this of any sink, and what it comes to for a
recorder and for a collector that hold earlier reports already.  It compares them with the
alarms of the text, which are told without a lexer, so that "everything" is not measured by
what a listener happened to hear.

Beside it stands the same for a lexer that is driven directly: lexers with different sinks
are `Alike` after any steps and give the same answers, as all of them are the lexer with
the transcript, its sink exchanged.
-/
import LoxLexer.Proofs.Alarm
import LoxLexer.Proofs.Resumption
import LoxLexer.Proofs.Transcript

namespace LoxLexer

set_option autoImplicit false

/-! ## Lexers apart from their sinks -/

namespace Lexer

variable {First Second : Type}

/-- Two lexers that differ at most in who listens to them. -/
structure Alike (one : Lexer First) (other : Lexer Second) : Prop where
  offset : one.offset = other.offset
  pending : one.pending = other.pending
  rest : one.rest = other.rest
  line : one.line = other.line
  complaints : one.complaints = other.complaints
  tokens : one.tokens = other.tokens
  finished : one.finished = other.finished

/-- Exchanging the sink leaves everything else. -/
theorem alike_mapSink {Third : Type} (relay : First → Second) (other : First → Third)
    (lexer : Lexer First) : Alike (lexer.mapSink relay) (lexer.mapSink other) where
  offset := rfl
  pending := rfl
  rest := rfl
  line := rfl
  complaints := rfl
  tokens := rfl
  finished := rfl

variable [ReportSink First] [ReportSink Second]

theorem alike_after (first : First) (second : Second) (text : List Char) (steps : List Step) :
    Alike ((ofText text first).after steps) ((ofText text second).after steps) := by
  rw [after_eq_replay first, after_eq_replay second]
  exact alike_mapSink _ _ _

/-- What is asked of a lexer is answered the same, whoever listens. -/
theorem answer_after (first : First) (second : Second) (text : List Char) (steps : List Step)
    (step : Step) :
    (step.perform ((ofText text first).after steps)).1 =
      (step.perform ((ofText text second).after steps)).1 := by
  rw [after_eq_replay first, after_eq_replay second, perform_mapSink (relays_replay first),
    perform_mapSink (relays_replay second)]

end Lexer

/-! ## Scans with a listener -/

variable {Sink : Type} [ReportSink Sink]

/-- A scan with a listener is the scan without it, and the listener is told the alarms of
the text after whatever it was told before. -/
theorem ofTextInto_eq (sink : Sink) (filename text : String) :
    Scan.ofTextInto sink filename text =
      (Scan.ofText filename text,
        ReportSink.reportAll sink ((alarms text.toList).map Alarm.report)) := by
  simp only [Scan.ofTextInto, Scan.ofText, Scan.ofLexer, Lexer.tokens_run_ofText,
    sink_run_of_alarms, ReportSink.reportAll_pair]

theorem diagnostics_eq_map (filename text : String) :
    (Scan.ofText filename text).diagnostics =
      ((alarms text.toList).map Alarm.report).map Report.diagnostic := by
  rw [diagnostics_ofText, List.map_map]
  apply List.map_congr_left
  intro alarm _
  exact alarm.diagnostic_report.symm

/-- **A listener hears all and changes nothing.**  Let a listener have been told some
reports before.  A scan with it is the scan without it, whatever it is, and it has then been
told the reports of the text too, in the order of their places in the text.

* A recorder holds the earlier reports and then these.
* A collector holds the diagnostics of the earlier reports and then those of the scan.
* The diagnostics of the scan are the diagnostics of these reports, one each, on the same
  line and with the same message, so the scan has no complaint just if the recorder has
  heard nothing new.

Lexers that are driven directly, through any steps, end in the same place, on the same line
and with the same tokens and counts whoever listens, and answer the same all the way. -/
theorem listener_hears_all (filename text : String) (prior : List Report) :
    let scan := Scan.ofText filename text
    let reports := (alarms text.toList).map Alarm.report
    let recorded := Scan.ofTextInto (ReportSink.reportAll Recorder.empty prior) filename text
    let collected := Scan.ofTextInto (ReportSink.reportAll Collector.empty prior) filename text
    (∀ {Sink : Type} [ReportSink Sink] (sink : Sink),
      Scan.ofTextInto sink filename text = (scan, ReportSink.reportAll sink reports)) ∧
    (recorded.1 = scan ∧ recorded.2.reports.toList = prior ++ reports) ∧
    (collected.1 = scan ∧
      collected.2.diagnostics.toList = prior.map Report.diagnostic ++ scan.diagnostics) ∧
    (scan.diagnostics = reports.map Report.diagnostic ∧
      scan.diagnostics.map (fun diagnostic => (diagnostic.line, diagnostic.message)) =
        reports.map fun report => (some report.line, report.message)) ∧
    (scan.ok = true ↔ recorded.2.reports.toList = prior) ∧
    ∀ {First Second : Type} [ReportSink First] [ReportSink Second] (first : First)
      (second : Second) (steps : List Lexer.Step),
      let one := (Lexer.ofText text.toList first).after steps
      let other := (Lexer.ofText text.toList second).after steps
      Lexer.Alike one other ∧
        ∀ step : Lexer.Step, (step.perform one).1 = (step.perform other).1 := by
  intro scan reports recorded collected
  have heard : recorded.2.reports.toList = prior ++ reports := by
    simp only [recorded, ofTextInto_eq, Recorder.toList_reportAll]
    rfl
  have kept : collected.2.diagnostics.toList =
      prior.map Report.diagnostic ++ scan.diagnostics := by
    simp only [collected, ofTextInto_eq, Collector.toList_reportAll, scan, diagnostics_eq_map]
    rfl
  have shown : scan.diagnostics = reports.map Report.diagnostic :=
    diagnostics_eq_map filename text
  refine ⟨fun sink => ofTextInto_eq sink filename text, ⟨?_, heard⟩, ⟨?_, kept⟩, ⟨shown, ?_⟩,
    ?_, ?_⟩
  · simp only [recorded, ofTextInto_eq, scan]
  · simp only [collected, ofTextInto_eq, scan]
  · rw [shown, List.map_map]
    rfl
  · rw [heard, List.append_right_eq_self, Scan.ok, shown, List.isEmpty_iff,
      List.map_eq_nil_iff]
  · intro First Second _ _ first second steps
    exact ⟨Lexer.alike_after first second _ steps, Lexer.answer_after first second _ steps⟩

end LoxLexer
