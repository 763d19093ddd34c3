/-
# LoxLexer.Proofs.Reachable -- what holds of a lexer after any steps

A lexer may be driven in any order, and steps may fail in between.  Whatever was
done, it still stands somewhere in its text: `Reads text lexer` says that the
characters before the mark, the pending ones and those left are the text.  Each
single move keeps that (`Reads.perform`), so every series of steps does
(`Reads.after`).

Only `run` finishes a lexer, and nothing takes that back (`finished_after_iff`).
-/
import LoxLexer.Lexer.Segments
import LoxLexer.Lexer.Step

namespace LoxLexer.Lexer

set_option autoImplicit false

variable {Sink : Type}

/-! ## Standing in a text -/

/-- A lexer at work on a text: what it has passed, what is pending and what is left
are the text. -/
def Reads (text : List Char) (lexer : Lexer Sink) : Prop :=
  ∃ past, past.length = lexer.offset ∧ past ++ lexer.pending ++ lexer.rest = text

theorem reads_ofText (text : List Char) (sink : Sink) : Reads text (ofText text sink) :=
  ⟨[], rfl, rfl⟩

namespace Reads

variable {text : List Char} {lexer : Lexer Sink}

/-- What is left is the text from the cursor on. -/
theorem rest_eq_drop (reads : Reads text lexer) : lexer.rest = text.drop lexer.position := by
  obtain ⟨past, offset, rfl⟩ := reads
  have length : lexer.position = (past ++ lexer.pending).length := by
    rw [List.length_append, offset]
    rfl
  rw [length, List.drop_left]

theorem position_add_length (reads : Reads text lexer) :
    lexer.position + lexer.rest.length = text.length := by
  obtain ⟨past, offset, rfl⟩ := reads
  simp [position, offset, Nat.add_assoc]

/-! ### Single moves -/

theorem mark (reads : Reads text lexer) : Reads text lexer.mark := by
  obtain ⟨past, offset, rfl⟩ := reads
  refine ⟨past ++ lexer.pending, ?_, ?_⟩
  · simp [Lexer.mark, position, offset]
  · simp [Lexer.mark]

theorem shift? (reads : Reads text lexer) {c : Char} {moved : Lexer Sink}
    (found : lexer.shift? = some (c, moved)) : Reads text moved := by
  obtain ⟨past, offset, rfl⟩ := reads
  cases left : lexer.rest with
  | nil => simp [left] at found
  | cons first rest =>
      rw [shift?_of_cons left] at found
      cases found
      exact ⟨past, offset, by simp⟩

theorem shiftIf (reads : Reads text lexer) (expected : String) :
    Reads text (lexer.shiftIf expected).2 := by
  unfold Lexer.shiftIf
  split
  · exact reads
  · rename_i c moved found
    split
    · exact reads.shift? found
    · exact reads

/-! ### Segments and runs -/

variable [ReportSink Sink]

theorem settle (reads : Reads text lexer) {c : Char} {rest : List Char}
    (left : lexer.rest = c :: rest) :
    Reads text (lexer.settle (Segment.cut c rest).1 (Segment.cut c rest).2) := by
  have passed : Reads text (lexer.pass (Segment.cut c rest).1 (Segment.cut c rest).2) := by
    obtain ⟨past, offset, rfl⟩ := reads.mark
    refine ⟨past, offset, ?_⟩
    have marked : lexer.mark.rest = c :: rest := left
    simp only [pass, consume, marked, List.append_assoc, Segment.cut_append]
  unfold Lexer.settle
  split <;> exact passed

theorem drain (reads : Reads text lexer) : Reads text lexer.drain := by
  induction lexer using drain_induction with
  | nil lexer left =>
      rw [drain_of_nil left]
      exact reads
  | cons lexer c rest left ih =>
      rw [drain_of_cons left]
      exact ih (reads.settle left)

theorem run (reads : Reads text lexer) : Reads text lexer.run := by
  unfold Lexer.run
  split
  · exact reads
  · exact reads.drain

/-- A single step, failed or not. -/
theorem perform (reads : Reads text lexer) (step : Step) : Reads text (step.perform lexer).2 := by
  cases step with
  | run => exact reads.run
  | segment =>
      cases left : lexer.rest with
      | nil =>
          simp only [Step.perform, segment?_eq_none left]
          exact reads.mark
      | cons c rest =>
          simp only [Step.perform, segment?_eq_settle left]
          exact reads.settle left
  | shift =>
      cases found : lexer.shift? with
      | none =>
          simp only [Step.perform, found]
          exact reads
      | some moved =>
          simp only [Step.perform, found]
          exact reads.shift? found
  | shiftIf expected => exact reads.shiftIf expected
  | mark => exact reads.mark
  | lookahead | secondLookahead | isExhausted | emit | complain | forget => exact reads

/-- **Any steps.**  Whatever is done with a lexer, it stands in its text. -/
theorem after (reads : Reads text lexer) (steps : List Step) :
    Reads text (lexer.after steps) := by
  induction steps generalizing lexer with
  | nil => exact reads
  | cons step rest ih => exact ih (reads.perform step)

end Reads

/-! ## Having run -/

variable [ReportSink Sink]

@[simp] theorem finished_run (lexer : Lexer Sink) : lexer.run.finished = true := by
  unfold run
  split
  · rename_i finished
    exact finished
  · rfl

/-- `run` finishes a lexer, and no other step changes whether it is finished. -/
@[simp] theorem finished_perform (lexer : Lexer Sink) (step : Step) :
    (step.perform lexer).2.finished = true ↔ step = .run ∨ lexer.finished = true := by
  cases step with
  | run => simp [Step.perform]
  | segment =>
      cases left : lexer.rest with
      | nil => simp [Step.perform, left, mark]
      | cons c rest => grind [Step.perform]
  | shift =>
      cases left : lexer.rest with
      | nil => simp [Step.perform, left]
      | cons c rest => grind [Step.perform]
  | shiftIf expected =>
      have same : (lexer.shiftIf expected).2.finished = lexer.finished := by
        cases left : lexer.rest with
        | nil => simp [shiftIf, left]
        | cons c rest => grind [shiftIf]
      simp [Step.perform, same]
  | _ => simp [Step.perform, mark, emit, complain]

/-- A lexer is finished just if it has run. -/
theorem finished_after_iff (lexer : Lexer Sink) (steps : List Step) :
    (lexer.after steps).finished = true ↔ Step.run ∈ steps ∨ lexer.finished = true := by
  induction steps generalizing lexer with
  | nil => simp [after]
  | cons step rest ih =>
      have split : lexer.after (step :: rest) = (step.perform lexer).2.after rest := rfl
      rw [split, ih, finished_perform, List.mem_cons, eq_comm, or_left_comm, or_assoc]

end LoxLexer.Lexer
