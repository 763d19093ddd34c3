/-
# LoxLexer.Proofs.Transcript -- who listens makes no difference

A lexer talks to its sink and never listens to it.  A `Transcript` is the sink that
writes down all it is told, the reports and the requests to forget them.  The main
statement, `after_eq_replay`, is that a lexer with any sink is, after any steps, the
lexer with the transcript, only that its sink has been told what the transcript holds.
So the transcript says what reports were made, whoever took them, and what any sink
holds is a question about the sink and the transcript alone:

* a recorder that is never told to forget holds all reports (`toList_replay_recorder`);
* a collector holds the diagnostics of the reports that stand, those after the last
  request to forget (`toList_replay_collector`).
-/
import LoxLexer.Lexer.Segments
import LoxLexer.Lexer.Step

namespace LoxLexer

set_option autoImplicit false

/-! ## Transcripts -/

/-- What a sink can be told. -/
inductive Call where
  | report (report : Report)
  | forget

namespace Call

def report? : Call → Option Report
  | .report made => some made
  | .forget => none

def isForget : Call → Bool
  | .report _ => false
  | .forget => true

/-- Tells a sink. -/
def tell {Sink : Type} [ReportSink Sink] (sink : Sink) : Call → Sink
  | .report made => ReportSink.report sink made
  | .forget => ReportSink.forget sink

end Call

/-- The reports among calls that no request to forget follows. -/
def standing : List Call → List Report
  | [] => []
  | call :: later => (if later.any Call.isForget then [] else call.report?.toList) ++ standing later

/-- A sink that writes down all it is told, in order. -/
structure Transcript where
  calls : List Call

namespace Transcript

def empty : Transcript := ⟨[]⟩

instance : ReportSink Transcript where
  report transcript report := ⟨transcript.calls ++ [.report report]⟩
  forget transcript := ⟨transcript.calls ++ [.forget]⟩

/-- All reports that were made, in order. -/
def reports (transcript : Transcript) : List Report := transcript.calls.filterMap Call.report?

/-- Tells a sink all that was written down. -/
def replay {Sink : Type} [ReportSink Sink] (sink : Sink) (transcript : Transcript) : Sink :=
  transcript.calls.foldl Call.tell sink

@[simp] theorem reports_append (first second : List Call) :
    reports ⟨first ++ second⟩ = reports ⟨first⟩ ++ reports ⟨second⟩ :=
  List.filterMap_append

/-- Calls that report make these reports. -/
@[simp] theorem reports_map (made : List Report) : reports ⟨made.map Call.report⟩ = made := by
  rw [reports, List.filterMap_map]
  exact List.filterMap_some

theorem any_isForget_map (made : List Report) :
    (made.map Call.report).any Call.isForget = false := by
  rw [List.any_map, List.any_eq_false]
  exact fun report _ => nofun

/-- Reporting is telling the reports. -/
theorem reportAll_eq_replay {Sink : Type} [ReportSink Sink] (sink : Sink)
    (made : List Report) :
    ReportSink.reportAll sink made = replay sink ⟨made.map Call.report⟩ := by
  rw [replay, List.foldl_map]
  rfl

/-- A transcript to which calls are replayed holds them too. -/
@[simp] theorem replay_self (transcript : Transcript) (calls : List Call) :
    replay transcript ⟨calls⟩ = ⟨transcript.calls ++ calls⟩ := by
  induction calls generalizing transcript with
  | nil => simp [replay]
  | cons call later ih =>
      have told : call.tell transcript = ⟨transcript.calls ++ [call]⟩ := by cases call <;> rfl
      have next := ih (call.tell transcript)
      rw [told, List.append_assoc] at next
      rw [← told] at next
      exact next

end Transcript

/-! ## What recorders and collectors hold -/

theorem toList_replay_recorder {calls : List Call} (kept : calls.any Call.isForget = false)
    (recorder : Recorder) :
    (Transcript.replay recorder ⟨calls⟩).reports.toList =
      recorder.reports.toList ++ Transcript.reports ⟨calls⟩ := by
  induction calls generalizing recorder with
  | nil => simp [Transcript.replay, Transcript.reports]
  | cons call later ih =>
      rw [List.any_cons, Bool.or_eq_false_iff] at kept
      cases call with
      | forget => simp [Call.isForget] at kept
      | report report =>
          have held := ih kept.2 (ReportSink.report recorder report)
          rw [Recorder.toList_report, List.append_assoc] at held
          exact held

theorem toList_replay_collector (calls : List Call) (collector : Collector) :
    (Transcript.replay collector ⟨calls⟩).diagnostics.toList =
      (if calls.any Call.isForget then [] else collector.diagnostics.toList) ++
        (standing calls).map Report.diagnostic := by
  induction calls generalizing collector with
  | nil => simp [Transcript.replay, standing]
  | cons call later ih =>
      have told : Transcript.replay collector ⟨call :: later⟩ =
          Transcript.replay (call.tell collector) ⟨later⟩ := rfl
      rw [told, ih, standing, List.any_cons]
      cases call with
      | forget => cases later.any Call.isForget <;> simp [Call.tell, Call.isForget, Call.report?,
          ReportSink.forget, Collector.empty]
      | report report =>
          cases later.any Call.isForget <;>
            simp [Call.tell, Call.isForget, Call.report?]

/-! ## Changing the sink -/

/-- A map from sinks to sinks that passes on what they are told. -/
structure Relays {First Second : Type} [ReportSink First] [ReportSink Second]
    (relay : First → Second) : Prop where
  report : ∀ sink report, relay (ReportSink.report sink report) =
    ReportSink.report (relay sink) report
  forget : ∀ sink, relay (ReportSink.forget sink) = ReportSink.forget (relay sink)

theorem relays_replay {Sink : Type} [ReportSink Sink] (sink : Sink) :
    Relays (Transcript.replay sink) where
  report transcript report := by
    simp only [ReportSink.report, Transcript.replay, List.foldl_append]
    rfl
  forget transcript := by
    simp only [ReportSink.forget, Transcript.replay, List.foldl_append]
    rfl

namespace Lexer

variable {First Second : Type}

/-- A lexer whose sink is exchanged. -/
def mapSink (relay : First → Second) (lexer : Lexer First) : Lexer Second :=
  { lexer with sink := relay lexer.sink }

variable [ReportSink First] [ReportSink Second] {relay : First → Second}

theorem settle_mapSink (relays : Relays relay) (lexer : Lexer First) (segment : Segment)
    (rest : List Char) :
    (lexer.mapSink relay).settle segment rest = (lexer.settle segment rest).mapSink relay := by
  unfold settle
  split
  · rfl
  · simp [complain, mapSink, pass, consume, mark, position, relays.report]
  · rfl

theorem segment?_mapSink (relays : Relays relay) (lexer : Lexer First) :
    (lexer.mapSink relay).segment? = lexer.segment?.map (mapSink relay) := by
  cases left : lexer.rest with
  | nil =>
      have same : (lexer.mapSink relay).rest = [] := left
      rw [segment?_eq_none left, segment?_eq_none same]
      rfl
  | cons c rest =>
      have same : (lexer.mapSink relay).rest = c :: rest := left
      rw [segment?_eq_settle left, segment?_eq_settle same, settle_mapSink relays]
      rfl

theorem drain_mapSink (relays : Relays relay) (lexer : Lexer First) :
    (lexer.mapSink relay).drain = lexer.drain.mapSink relay := by
  induction lexer using drain_induction with
  | nil lexer left =>
      have same : (lexer.mapSink relay).rest = [] := left
      rw [drain_of_nil left, drain_of_nil same]
  | cons lexer c rest left ih =>
      have same : (lexer.mapSink relay).rest = c :: rest := left
      rw [drain_of_cons left, drain_of_cons same, settle_mapSink relays, ih]

theorem run_mapSink (relays : Relays relay) (lexer : Lexer First) :
    (lexer.mapSink relay).run = lexer.run.mapSink relay := by
  have finished : (lexer.mapSink relay).finished = lexer.finished := rfl
  unfold run
  rw [finished, drain_mapSink relays]
  cases lexer.finished <;> rfl

omit [ReportSink First] [ReportSink Second] in
theorem shift?_mapSink (lexer : Lexer First) :
    (lexer.mapSink relay).shift? = lexer.shift?.map fun (c, moved) => (c, moved.mapSink relay) := by
  cases left : lexer.rest with
  | nil =>
      have same : (lexer.mapSink relay).rest = [] := left
      rw [shift?_of_nil left, shift?_of_nil same]
      rfl
  | cons c rest =>
      have same : (lexer.mapSink relay).rest = c :: rest := left
      rw [shift?_of_cons left, shift?_of_cons same]
      rfl

/-- A step answers the same, whoever listens, and leaves the lexer in the same place. -/
theorem perform_mapSink (relays : Relays relay) (lexer : Lexer First) (step : Step) :
    step.perform (lexer.mapSink relay) =
      ((step.perform lexer).1, (step.perform lexer).2.mapSink relay) := by
  cases step with
  | run =>
      simp only [Step.perform, run_mapSink relays]
      rfl
  | segment =>
      simp only [Step.perform, segment?_mapSink relays]
      cases lexer.segment? <;> rfl
  | shift =>
      simp only [Step.perform, shift?_mapSink]
      cases lexer.shift? <;> rfl
  | shiftIf expected =>
      simp only [Step.perform, shiftIf, shift?_mapSink]
      cases lexer.shift? with
      | none => rfl
      | some found =>
          simp only [Option.map_some]
          split <;> rfl
  | complain report => simp [Step.perform, complain, mapSink, relays.report]
  | forget => simp [Step.perform, mapSink, relays.forget]
  | lookahead | secondLookahead | isExhausted | mark | emit => rfl

theorem after_mapSink (relays : Relays relay) (lexer : Lexer First) (steps : List Step) :
    (lexer.mapSink relay).after steps = (lexer.after steps).mapSink relay := by
  induction steps generalizing lexer with
  | nil => rfl
  | cons step rest ih =>
      have next := ih (step.perform lexer).2
      simp only [after, List.foldl_cons, perform_mapSink relays] at next ⊢
      exact next

/-- **Who listens makes no difference.**  After any steps, a lexer with a sink is the lexer
with the transcript, its sink having been told what the transcript holds. -/
theorem after_eq_replay {Sink : Type} [ReportSink Sink] (sink : Sink) (text : List Char)
    (steps : List Step) :
    (ofText text sink).after steps =
      ((ofText text Transcript.empty).after steps).mapSink (Transcript.replay sink) :=
  after_mapSink (relays_replay sink) (ofText text Transcript.empty) steps

end Lexer

end LoxLexer
