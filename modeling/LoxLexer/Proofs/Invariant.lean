/-
# LoxLexer.Proofs.Invariant -- what every step of a lexer keeps

A lexer may be driven in any order, with failed steps in between.  What one step can do
is said once, in `Effect`: it moves over some characters, counts at most the lines that
end in them, adds tokens behind those there are, and makes reports, each counted once.
`effect_perform` finds the effect of each step; everything else follows from it.

The main statement, `state_after`, is about any series of steps and one step more.  The
mark is never behind the cursor and the cursor never past the end of the text; nothing
that was read, counted or found is taken back; the line is at most the one that the
characters before the cursor lead to, and just that one as long as only reading has
moved the cursor; the reports that were made are counted, and sinks hold them; and a
step fails just if it needs a character where there is none, and then changes nothing
but, in reading, the mark.
-/
import LoxLexer.Proofs.LongestMatch
import LoxLexer.Proofs.Reachable
import LoxLexer.Proofs.Transcript

namespace LoxLexer.Lexer

set_option autoImplicit false

variable {Sink : Type} [ReportSink Sink]

/-! ## What a step does -/

/-- The difference between a lexer and the same lexer later: the characters that it has
moved over, the tokens that it has added and what it has told its sink. -/
structure Effect (before after : Lexer Sink) (read : List Char) (found : List Token)
    (calls : List Call) : Prop where
  rest : before.rest = read ++ after.rest
  line_ge : before.line ≤ after.line
  line_le : after.line ≤ before.line + read.count '\n'
  tokens : after.tokens.toList = before.tokens.toList ++ found
  complaints : after.complaints = before.complaints + (Transcript.reports ⟨calls⟩).length
  sink : after.sink = Transcript.replay before.sink ⟨calls⟩

/-- Whether a step reads, so that it counts the lines that end in what it moves over. -/
def Step.IsReading (step : Step) : Prop := step = .run ∨ step = .segment

theorem effect_refl (lexer : Lexer Sink) : Effect lexer lexer [] [] [] where
  rest := rfl
  line_ge := Nat.le_refl _
  line_le := Nat.le_refl _
  tokens := (List.append_nil _).symm
  complaints := rfl
  sink := rfl

/-- Moving over a character leaves the lexer on its line. -/
theorem effect_shift? {lexer moved : Lexer Sink} {c : Char}
    (found : lexer.shift? = some (c, moved)) : Effect lexer moved [c] [] [] := by
  cases left : lexer.rest with
  | nil => simp [left] at found
  | cons first rest =>
      rw [shift?_of_cons left] at found
      cases found
      exact {
        rest := left
        line_ge := Nat.le_refl _
        line_le := Nat.le_add_right _ _
        tokens := (List.append_nil _).symm
        complaints := rfl
        sink := rfl }

theorem effect_settle {lexer : Lexer Sink} {c : Char} {rest : List Char}
    (left : lexer.rest = c :: rest) :
    let segment := (Segment.cut c rest).1
    let line := lexer.line + segment.lineEnds
    Effect lexer (lexer.settle segment (Segment.cut c rest).2) segment.text (segment.tokens line)
      ((segment.reports line).map Call.report) where
  rest := by rw [rest_settle, left, Segment.cut_append]
  line_ge := by
    rw [line_settle]
    exact Nat.le_add_right _ _
  line_le := Nat.le_of_eq (line_settle ..)
  tokens := tokens_settle ..
  complaints := by rw [complaints_settle, Transcript.reports_map]
  sink := by rw [sink_settle, Transcript.reportAll_eq_replay]

theorem effect_run {lexer : Lexer Sink} (unfinished : lexer.finished = false) :
    Effect lexer lexer.run lexer.rest
      (tokensFrom lexer.line (segments lexer.rest) ++
        [.endOfInput ((lexer.line + lexer.rest.count '\n' : Nat) : Int)])
      ((reportsFrom lexer.line (segments lexer.rest)).map Call.report) where
  rest := by rw [rest_run unfinished, List.append_nil]
  line_ge := by
    rw [line_run unfinished]
    exact Nat.le_add_right _ _
  line_le := Nat.le_of_eq (line_run unfinished)
  tokens := by rw [tokens_run unfinished, List.append_assoc]
  complaints := by rw [complaints_run unfinished, Transcript.reports_map]
  sink := by rw [sink_run unfinished, Transcript.reportAll_eq_replay]

/-- A step that reads counts all lines that end in what it moves over, and tells the sink
of reports alone. -/
theorem effect_of_isReading (lexer : Lexer Sink) {step : Step} (reading : step.IsReading) :
    ∃ read found made,
      Effect lexer (step.perform lexer).2 read found (List.map Call.report made) ∧
        (step.perform lexer).2.line = lexer.line + read.count '\n' := by
  rcases reading with rfl | rfl
  · cases finished : lexer.finished with
    | true =>
        rw [Step.perform, run_of_finished finished]
        exact ⟨[], [], [], effect_refl lexer, rfl⟩
    | false => exact ⟨_, _, _, effect_run finished, line_run finished⟩
  · cases left : lexer.rest with
    | nil =>
        simp only [Step.perform, segment?_eq_none left]
        exact ⟨[], [], [], { effect_refl lexer with }, rfl⟩
    | cons c rest =>
        simp only [Step.perform, segment?_eq_settle left]
        exact ⟨_, _, _, effect_settle left, line_settle ..⟩

/-- A step that does not read moves over one character at most. -/
theorem effect_of_not_isReading (lexer : Lexer Sink) {step : Step}
    (other : ¬ step.IsReading) :
    ∃ read found calls, Effect lexer (step.perform lexer).2 read found calls ∧
      (calls.any Call.isForget = true → step = .forget) := by
  have silent : ([] : List Call).any Call.isForget = true → step = .forget := by simp
  cases step with
  | run => exact absurd (.inl rfl) other
  | segment => exact absurd (.inr rfl) other
  | shift =>
      cases found : lexer.shift? with
      | none =>
          simp only [Step.perform, found]
          exact ⟨[], [], [], effect_refl lexer, silent⟩
      | some moved =>
          simp only [Step.perform, found]
          exact ⟨_, _, _, effect_shift? found, silent⟩
  | shiftIf expected =>
      simp only [Step.perform, shiftIf]
      cases found : lexer.shift? with
      | none => exact ⟨[], [], [], effect_refl lexer, silent⟩
      | some moved =>
          simp only
          split
          · exact ⟨_, _, _, effect_shift? found, silent⟩
          · exact ⟨[], [], [], effect_refl lexer, silent⟩
  | mark => exact ⟨[], [], [], { effect_refl lexer with }, silent⟩
  | emit kind literal =>
      have added : (lexer.emit kind literal).tokens.toList = lexer.tokens.toList ++
          [⟨kind, String.ofList lexer.pending, literal, lexer.line⟩] := Array.toList_push
      exact ⟨[], _, [], { effect_refl lexer with tokens := added }, silent⟩
  | complain report =>
      exact ⟨[], [], [.report report], { effect_refl lexer with complaints := rfl, sink := rfl },
        by simp [Call.isForget]⟩
  | forget =>
      exact ⟨[], [], [.forget], { effect_refl lexer with complaints := rfl, sink := rfl },
        fun _ => rfl⟩
  | lookahead | secondLookahead | isExhausted => exact ⟨[], [], [], effect_refl lexer, silent⟩

/-- **The effect of a step.**  Every step has one; a step that reads has counted all lines
that end in what it moved over, and only the request to forget tells the sink so. -/
theorem effect_perform (lexer : Lexer Sink) (step : Step) :
    ∃ read found calls, Effect lexer (step.perform lexer).2 read found calls ∧
      (step.IsReading → (step.perform lexer).2.line = lexer.line + read.count '\n') ∧
      (calls.any Call.isForget = true → step = .forget) := by
  by_cases reading : step.IsReading
  · obtain ⟨read, found, made, effect, counted⟩ := effect_of_isReading lexer reading
    refine ⟨read, found, made.map Call.report, effect, fun _ => counted, fun told => ?_⟩
    rw [Transcript.any_isForget_map] at told
    cases told
  · obtain ⟨read, found, calls, effect, quiet⟩ := effect_of_not_isReading lexer reading
    exact ⟨read, found, calls, effect, fun yes => absurd yes reading, quiet⟩

/-! ## Failing -/

/-- A step fails just if it needs a character and there is none left. -/
theorem perform_fails_iff (lexer : Lexer Sink) (step : Step) :
    (∃ fault, (step.perform lexer).1 = .error fault) ↔
      (step = .segment ∨ step = .shift) ∧ lexer.rest = [] := by
  cases step with
  | segment =>
      cases left : lexer.rest with
      | nil =>
          have failed : (Step.segment.perform lexer).1 = .error .pastEnd := by
            simp [Step.perform, left]
          exact ⟨fun _ => ⟨.inl rfl, rfl⟩, fun _ => ⟨_, failed⟩⟩
      | cons c rest => grind [Step.perform]
  | shift =>
      cases left : lexer.rest with
      | nil =>
          have failed : (Step.shift.perform lexer).1 = .error .pastEnd := by
            simp [Step.perform, left]
          exact ⟨fun _ => ⟨.inr rfl, rfl⟩, fun _ => ⟨_, failed⟩⟩
      | cons c rest => grind [Step.perform]
  | _ => simp [Step.perform]

/-- A failed step changes nothing, but reading a segment has put the mark at the cursor. -/
theorem perform_of_fails {lexer : Lexer Sink} {step : Step}
    (fails : ∃ fault, (step.perform lexer).1 = .error fault) :
    (step = .segment → (step.perform lexer).2 = lexer.mark) ∧
      (step ≠ .segment → (step.perform lexer).2 = lexer) := by
  obtain ⟨rfl | rfl, left⟩ := (perform_fails_iff lexer step).mp fails
  · simp [Step.perform, left]
  · simp [Step.perform, left]

/-! ## The line of the cursor -/

namespace Reads

variable {text : List Char} {lexer : Lexer Sink}

omit [ReportSink Sink] in
/-- The characters between the mark and the cursor stand in the text. -/
theorem take_position (reads : Lexer.Reads text lexer) :
    (text.take lexer.position).drop lexer.offset = lexer.pending := by
  obtain ⟨past, offset, rfl⟩ := reads
  have length : lexer.position = (past ++ lexer.pending).length := by
    rw [List.length_append, offset]
    rfl
  rw [length, List.take_left, ← offset, List.drop_left]

/-- What a step moves over follows in the text what was passed before. -/
theorem take_position_perform (reads : Lexer.Reads text lexer) {step : Step}
    {read : List Char} {found : List Token} {calls : List Call}
    (effect : Effect lexer (step.perform lexer).2 read found calls) :
    (step.perform lexer).2.position = lexer.position + read.length ∧
      text.take (step.perform lexer).2.position = text.take lexer.position ++ read := by
  have rest := effect.rest
  have before := reads.position_add_length
  have after := (reads.perform step).position_add_length
  rw [rest, List.length_append] at before
  have position : (step.perform lexer).2.position = lexer.position + read.length := by omega
  refine ⟨position, ?_⟩
  rw [position, List.take_add, ← reads.rest_eq_drop, rest, List.take_left]

end Reads

/-- Where a lexer stands in a text: its line is at least the first, and at most the one
that the characters before the cursor lead to. -/
structure Sound (text : List Char) (lexer : Lexer Sink) : Prop where
  reads : Lexer.Reads text lexer
  one_le_line : 1 ≤ lexer.line
  line_le : lexer.line ≤ lineAfter (text.take lexer.position)

omit [ReportSink Sink] in
theorem sound_ofText (text : List Char) (sink : Sink) : Sound text (ofText text sink) where
  reads := reads_ofText text sink
  one_le_line := Nat.le_refl 1
  line_le := Nat.le_add_right 1 _

theorem Sound.perform {text : List Char} {lexer : Lexer Sink} (sound : Sound text lexer)
    (step : Step) : Sound text (step.perform lexer).2 := by
  obtain ⟨read, found, calls, effect, -, -⟩ := effect_perform lexer step
  refine ⟨sound.reads.perform step, Nat.le_trans sound.one_le_line effect.line_ge, ?_⟩
  have lines := lineAfter_append (text.take lexer.position) read
  have before := sound.line_le
  have counted := effect.line_le
  rw [(sound.reads.take_position_perform effect).2]
  omega

/-- **Any steps.**  Whatever is done with a lexer, its line stays between these bounds. -/
theorem Sound.after {text : List Char} {lexer : Lexer Sink} (sound : Sound text lexer)
    (steps : List Step) : Sound text (lexer.after steps) := by
  induction steps generalizing lexer with
  | nil => exact sound
  | cons step rest ih => exact ih (sound.perform step)

/-- Whether no step but those that read has moved the cursor. -/
def MovedByReading (lexer : Lexer Sink) (steps : List Step) : Prop :=
  ∀ earlier step later, steps = earlier ++ step :: later →
    step.IsReading ∨ (lexer.after (earlier ++ [step])).position = (lexer.after earlier).position

theorem line_perform {text : List Char} {lexer : Lexer Sink} (reads : Lexer.Reads text lexer)
    (counted : lexer.line = lineAfter (text.take lexer.position)) {step : Step}
    (moved : step.IsReading ∨ (step.perform lexer).2.position = lexer.position) :
    (step.perform lexer).2.line = lineAfter (text.take (step.perform lexer).2.position) := by
  obtain ⟨read, found, calls, effect, counts, -⟩ := effect_perform lexer step
  obtain ⟨position, passed⟩ := reads.take_position_perform effect
  have line : (step.perform lexer).2.line = lexer.line + read.count '\n' := by
    rcases moved with reading | still
    · exact counts reading
    · have nothing : read = [] := List.eq_nil_of_length_eq_zero (by omega)
      have lower := effect.line_ge
      have upper := effect.line_le
      rw [nothing] at upper ⊢
      exact Nat.le_antisymm upper lower
  rw [passed, lineAfter_append, line, counted]

/-- A lexer that only reading has moved is on the line of its cursor. -/
theorem line_after {text : List Char} {lexer : Lexer Sink} (reads : Lexer.Reads text lexer)
    (counted : lexer.line = lineAfter (text.take lexer.position)) {steps : List Step}
    (moved : MovedByReading lexer steps) :
    (lexer.after steps).line = lineAfter (text.take (lexer.after steps).position) := by
  induction steps generalizing lexer with
  | nil => exact counted
  | cons step rest ih =>
      have first := line_perform reads counted (moved [] step rest rfl)
      refine ih (reads.perform step) first fun earlier next later split => ?_
      exact moved (step :: earlier) next later (by rw [split, List.cons_append])

/-! ## The reports that were made -/

/-- A transcript that holds as many reports as its lexer has counted goes on to do so. -/
theorem complaints_after {lexer : Lexer Transcript}
    (counted : lexer.complaints = lexer.sink.reports.length) (steps : List Step) :
    (lexer.after steps).complaints = (lexer.after steps).sink.reports.length := by
  induction steps generalizing lexer with
  | nil => exact counted
  | cons step rest ih =>
      obtain ⟨read, found, calls, effect, -, -⟩ := effect_perform lexer step
      refine ih ?_
      rw [effect.complaints, effect.sink, counted, Transcript.replay_self,
        Transcript.reports_append, List.length_append]

/-- The transcript of a text holds as many reports as the lexer has counted, whoever else
listens. -/
theorem complaints_after_ofText (sink : Sink) (text : List Char) (steps : List Step) :
    ((ofText text sink).after steps).complaints =
      ((ofText text Transcript.empty).after steps).sink.reports.length := by
  rw [after_eq_replay]
  exact complaints_after rfl steps

/-- A transcript holds a request to forget only if one was made. -/
theorem forget_of_any_isForget {lexer : Lexer Transcript} {steps : List Step}
    (told : (lexer.after steps).sink.calls.any Call.isForget = true) :
    Step.forget ∈ steps ∨ lexer.sink.calls.any Call.isForget = true := by
  induction steps generalizing lexer with
  | nil => exact .inr told
  | cons step rest ih =>
      obtain ⟨read, found, calls, effect, -, asked⟩ := effect_perform lexer step
      rcases ih told with later | before
      · exact .inl (List.mem_cons_of_mem step later)
      · rw [effect.sink, Transcript.replay_self, List.any_append, Bool.or_eq_true] at before
        rcases before with earlier | now
        · exact .inr earlier
        · exact .inl (asked now ▸ List.mem_cons_self)

/-- A recorder that was not told to forget holds all reports. -/
theorem reports_after_recorder (text : List Char) {steps : List Step}
    (kept : Step.forget ∉ steps) :
    ((ofText text Recorder.empty).after steps).sink.reports.toList =
      ((ofText text Transcript.empty).after steps).sink.reports := by
  have quiet : ((ofText text Transcript.empty).after steps).sink.calls.any Call.isForget =
      false := by
    rw [← Bool.not_eq_true]
    intro told
    rcases forget_of_any_isForget told with asked | before
    · exact kept asked
    · cases before
  rw [after_eq_replay]
  exact toList_replay_recorder quiet Recorder.empty

/-- A collector holds the diagnostics of the reports that stand. -/
theorem diagnostics_after_collector (text : List Char) (steps : List Step) :
    ((ofText text Collector.empty).after steps).sink.diagnostics.toList =
      (standing ((ofText text Transcript.empty).after steps).sink.calls).map
        Report.diagnostic := by
  have held := toList_replay_collector
    ((ofText text Transcript.empty).after steps).sink.calls Collector.empty
  rw [after_eq_replay]
  refine held.trans ?_
  have nothing : Collector.empty.diagnostics.toList = [] := rfl
  rw [nothing, ite_self, List.nil_append]

theorem hasErrors_iff (collector : Collector) :
    collector.hasErrors = true ↔ collector.diagnostics.toList ≠ [] := by
  simp [Collector.hasErrors]

/-! ## After any steps -/

@[simp] theorem after_concat (lexer : Lexer Sink) (steps : List Step) (step : Step) :
    lexer.after (steps ++ [step]) = (step.perform (lexer.after steps)).2 := by
  simp [after]

/-- **What every step keeps.**  Take a lexer after any steps, `before`, and after one step
more, `now`.

* Its mark is not behind its cursor, nor its cursor past the end, and the pending
  characters are those between them.
* Cursor, line and count of reports have not gone down, and tokens were only added.
* Its line is between the first and that of the characters before the cursor, and the
  latter as long as only reading has moved the cursor.
* The transcript holds what its sink was told, and as many reports as were counted.  A
  recorder that was not told to forget holds all of them, and a collector the diagnostics
  of those since it was last told to.
* The step failed just if it reads or moves over a character and there is none left, and
  then it has changed nothing, but reading has put the mark at the cursor. -/
theorem state_after (sink : Sink) (text : List Char) (steps : List Step) (step : Step) :
    let before := (ofText text sink).after steps
    let now := (ofText text sink).after (steps ++ [step])
    let transcript := ((ofText text Transcript.empty).after (steps ++ [step])).sink
    let recorder := ((ofText text Recorder.empty).after (steps ++ [step])).sink
    let collector := ((ofText text Collector.empty).after (steps ++ [step])).sink
    (now.offset ≤ now.position ∧ now.position ≤ text.length ∧
      now.pending = (text.take now.position).drop now.offset) ∧
    (before.position ≤ now.position ∧ before.line ≤ now.line ∧
      before.complaints ≤ now.complaints ∧ before.tokens.toList <+: now.tokens.toList) ∧
    (1 ≤ now.line ∧ now.line ≤ 1 + (text.take now.position).count '\n' ∧
      (MovedByReading (ofText text sink) (steps ++ [step]) →
        now.line = 1 + (text.take now.position).count '\n')) ∧
    (now.sink = transcript.replay sink ∧ now.complaints = transcript.reports.length) ∧
    (Step.forget ∉ steps ++ [step] → recorder.reports.toList = transcript.reports) ∧
    (collector.diagnostics.toList = (standing transcript.calls).map Report.diagnostic ∧
      (collector.hasErrors = true ↔ collector.diagnostics.toList ≠ [])) ∧
    ((∃ fault, (step.perform before).1 = .error fault) ↔
      (step = .segment ∨ step = .shift) ∧ before.position = text.length) ∧
    ((∃ fault, (step.perform before).1 = .error fault) →
      (step = .segment → now = { before with offset := before.position, pending := [] }) ∧
      (step ≠ .segment → now = before)) := by
  intro before now transcript recorder collector
  have one_more : now = (step.perform before).2 := after_concat _ steps step
  have soundBefore : Sound text before := (sound_ofText text sink).after steps
  have sound : Sound text now := (sound_ofText text sink).after (steps ++ [step])
  have told := after_eq_replay sink text (steps ++ [step])
  obtain ⟨read, found, calls, effect, -, -⟩ := effect_perform before step
  have position := (soundBefore.reads.take_position_perform effect).1
  have within := sound.reads.position_add_length
  have left := soundBefore.reads.position_add_length
  rw [← one_more] at effect position
  have exhausted : before.rest = [] ↔ before.position = text.length := by
    rw [← List.length_eq_zero_iff]
    omega
  refine ⟨⟨Nat.le_add_right _ _, by omega, sound.reads.take_position.symm⟩,
    ⟨by omega, effect.line_ge, ?_, ?_⟩,
    ⟨sound.one_le_line, sound.line_le, line_after (reads_ofText text sink) rfl⟩,
    ⟨congrArg Lexer.sink told, complaints_after_ofText sink text _⟩,
    reports_after_recorder text, ⟨diagnostics_after_collector text _, hasErrors_iff collector⟩,
    ?_, ?_⟩
  · rw [effect.complaints]
    exact Nat.le_add_right _ _
  · rw [effect.tokens]
    exact List.prefix_append _ _
  · rw [← exhausted]
    exact perform_fails_iff before step
  · intro fails
    rw [one_more]
    exact perform_of_fails fails

end LoxLexer.Lexer
