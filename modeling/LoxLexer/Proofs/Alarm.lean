/-
# LoxLexer.Proofs.Alarm -- the complaints of a text, one character at a time

What a text is complained about can be told without tokens.  A machine with four
modes reads the text character by character: in code it raises an alarm at every
character that the language has no use for, it passes over comments and strings,
and it raises one more if the text ends within a string.  The mode `slash` stands
for the only lookahead it needs, a slash that may start a comment.

The main statement, `reports_eq_alarms`, is that these alarms are the reports of a
lexer, in order, and the diagnostics of a scan, and that a text is accepted exactly
if it raises none.  The simulation goes piece by piece: `alarmsFrom_piece` says that
a piece taken by longest match leads the machine from code back to code.
-/
import LoxLexer.Proofs.LongestMatch
import LoxLexer.Scan.Basic

namespace LoxLexer

set_option autoImplicit false

/-! ## The machine -/

/-- Where in a text the machine is. -/
inductive Mode where
  | code
  /-- In code, after a slash. -/
  | slash
  | comment
  | string
  deriving DecidableEq

/-- The signs that are fine in code, apart from the slash and the quote. -/
def fineSigns : List Char :=
  ['(', ')', '{', '}', ',', '.', '-', '+', ';', '*', '!', '=', '<', '>', ' ', '\r', '\t', '\n']

/-- The characters that are fine in code and leave the machine there. -/
def isFine (c : Char) : Bool := c.isAlphanum || c = '_' || fineSigns.contains c

namespace Mode

/-- Reads a character in code: the mode after it, and whether it raises an alarm. -/
def readCode (c : Char) : Mode × Bool :=
  if c = '"' then (string, false)
  else if c = '/' then (slash, false)
  else (code, !isFine c)

/-- Reads a character.  After a slash that starts no comment, it is read as in code. -/
def read : Mode → Char → Mode × Bool
  | code, c => readCode c
  | slash, c => if c = '/' then (comment, false) else readCode c
  | comment, c => (if c = '\n' then code else comment, false)
  | string, c => (if c = '"' then code else string, false)

end Mode

/-- An alarm and its line. -/
inductive Alarm where
  | unexpected (line : Nat)
  | unterminated (line : Nat)
  deriving DecidableEq

/-- The alarms of a text that the machine reads from a mode on a line. -/
def alarmsFrom (mode : Mode) (line : Nat) : List Char → List Alarm
  | [] => if mode = .string then [.unterminated line] else []
  | c :: rest =>
      (if (mode.read c).2 then [.unexpected line] else []) ++
        alarmsFrom (mode.read c).1 (if c = '\n' then line + 1 else line) rest

/-- The alarms of a whole text. -/
def alarms (text : List Char) : List Alarm := alarmsFrom .code 1 text

namespace Alarm

/-- An alarm as a lexer reports it. -/
def report : Alarm → Report
  | unexpected line => ⟨line, "Unexpected character."⟩
  | unterminated line => ⟨line, "Unterminated string."⟩

/-- An alarm as a scan shows it. -/
def diagnostic : Alarm → Diagnostic
  | unexpected line =>
      ⟨"LEX001", "Unexpected character.", some line,
        "Only ASCII letters, digits, operators and punctuation are valid outside strings."⟩
  | unterminated line =>
      ⟨"LEX002", "Unterminated string.", some line, "Close the string with a double quote."⟩

@[simp] theorem diagnostic_report (alarm : Alarm) : alarm.report.diagnostic = alarm.diagnostic := by
  cases alarm <;> rfl

end Alarm

/-! ## Reading runs of characters -/

theorem count_newline_cons (c : Char) (rest : List Char) :
    (c :: rest).count '\n' = [c].count '\n' + rest.count '\n' := by
  rw [← List.count_append]
  rfl

/-- A character without alarm. -/
theorem alarmsFrom_quiet {mode next : Mode} {c : Char} (quiet : mode.read c = (next, false))
    (line : Nat) (rest : List Char) :
    alarmsFrom mode line (c :: rest) = alarmsFrom next (line + [c].count '\n') rest := by
  have step : (if c = '\n' then line + 1 else line) = line + [c].count '\n' := by
    by_cases ends : c = '\n' <;> simp [ends]
  rw [alarmsFrom, quiet, step]
  rfl

theorem readCode_of_fine {c : Char} (fine : isFine c = true) :
    Mode.readCode c = (.code, false) := by
  have other (d : Char) (unfit : isFine d = false) : c ≠ d := by
    rintro rfl
    simp [fine] at unfit
  simp [Mode.readCode, other '"' (by decide), other '/' (by decide), fine]

/-- Characters that are fine leave the machine in code. -/
theorem alarmsFrom_fine {read : List Char} (fine : ∀ c ∈ read, isFine c = true) (line : Nat)
    (after : List Char) :
    alarmsFrom .code line (read ++ after) = alarmsFrom .code (line + read.count '\n') after := by
  induction read generalizing line with
  | nil => rfl
  | cons c rest ih =>
      rw [List.forall_mem_cons] at fine
      have quiet : Mode.code.read c = (.code, false) := readCode_of_fine fine.1
      rw [List.cons_append, alarmsFrom_quiet quiet, ih fine.2, count_newline_cons c rest,
        Nat.add_assoc]

/-- A comment is left at the line's end, which is read as in code. -/
theorem alarmsFrom_comment {body after : List Char} (sameLine : '\n' ∉ body)
    (stops : NoMore (· ≠ '\n') after) (line : Nat) :
    alarmsFrom .comment line (body ++ after) = alarmsFrom .code line after := by
  induction body with
  | nil =>
      cases after with
      | nil => rfl
      | cons c rest =>
          have ends : c = '\n' := by simpa using stops c rfl
          subst ends
          rfl
  | cons c rest ih =>
      rw [List.mem_cons, not_or] at sameLine
      have other : c ≠ '\n' := fun same => sameLine.1 same.symm
      have quiet : Mode.comment.read c = (.comment, false) := by simp [Mode.read, other]
      have noEnd : [c].count '\n' = 0 := by simp [other]
      rw [List.cons_append, alarmsFrom_quiet quiet, noEnd, Nat.add_zero, ih sameLine.2]

/-- A string goes on up to a quote, over line ends too, and they count. -/
theorem alarmsFrom_string {body : List Char} (unquoted : '"' ∉ body) (line : Nat)
    (after : List Char) :
    alarmsFrom .string line (body ++ after) =
      alarmsFrom .string (line + body.count '\n') after := by
  induction body generalizing line with
  | nil => rfl
  | cons c rest ih =>
      rw [List.mem_cons, not_or] at unquoted
      have other : c ≠ '"' := fun same => unquoted.1 same.symm
      have quiet : Mode.string.read c = (.string, false) := by simp [Mode.read, other]
      rw [List.cons_append, alarmsFrom_quiet quiet, ih unquoted.2, count_newline_cons c rest,
        Nat.add_assoc]

/-- After a slash that starts no comment the machine is as good as in code. -/
theorem alarmsFrom_slash {after : List Char} (stops : NoMore (· = '/') after) (line : Nat) :
    alarmsFrom .slash line after = alarmsFrom .code line after := by
  cases after with
  | nil => rfl
  | cons c rest =>
      have other : c ≠ '/' := by simpa using stops c rfl
      have same : Mode.slash.read c = Mode.code.read c := by simp [Mode.read, other]
      rw [alarmsFrom, alarmsFrom, same]

/-! ## Reading pieces -/

theorem isFine_of_inWord {c : Char} (member : inWord c = true) : isFine c = true := by
  simp only [inWord] at member
  simp [isFine, member]

theorem isFine_of_isDigit {c : Char} (digit : c.isDigit = true) : isFine c = true :=
  isFine_of_inWord (inWord_of_isDigit digit)

theorem read_of_stray {c : Char} (foreign : inWord c = false) (unlisted : c ∉ signs) :
    Mode.code.read c = (.code, true) := by
  have other (d : Char) (known : d ∈ signs) : c ≠ d := ne_of_not_mem_signs unlisted known
  have noFineSign : c ∉ fineSigns := by
    have known : ∀ d ∈ fineSigns, d ∈ signs := by simp [fineSigns, signs]
    exact fun member => unlisted (known c member)
  have unfit : isFine c = false := by
    simp only [inWord] at foreign
    simpa [isFine, foreign] using noFineSign
  simp [Mode.read, Mode.readCode, other '"' (by decide), other '/' (by decide), unfit]

/-- **One piece of the simulation.**  A piece leads the machine from code to code, over
the lines that end in it, and raises an alarm just if it makes a report. -/
theorem alarmsFrom_piece {piece : Piece} {after : List Char} (longest : Longest piece after)
    (line : Nat) :
    (alarmsFrom .code line (piece.text ++ after)).map Alarm.report =
      (piece.find? (line + piece.text.count '\n')).toList.filterMap Find.report? ++
        (alarmsFrom .code (line + piece.text.count '\n') after).map Alarm.report := by
  cases longest with
  | @mark c kind _ listed =>
      have known : ∀ entry ∈ marks, isFine entry.1 = true := by decide
      have fine : ∀ d ∈ [c], isFine d = true := by simpa using known _ listed
      rw [alarmsFrom_fine fine]
      rfl
  | @operator c bare withEqual _ listed _ =>
      have known : ∀ entry ∈ operators, isFine entry.1 = true := by decide
      have fine : ∀ d ∈ [c], isFine d = true := by simpa using known _ listed
      rw [alarmsFrom_fine fine]
      rfl
  | @operatorEqual c bare withEqual _ listed =>
      have known : ∀ entry ∈ operators, isFine entry.1 = true := by decide
      have fine : ∀ d ∈ [c, '='], isFine d = true := by
        simpa using ⟨known _ listed, (by decide : isFine '=' = true)⟩
      rw [alarmsFrom_fine fine]
      rfl
  | slash stops =>
      rw [List.cons_append, alarmsFrom_quiet rfl, List.nil_append, alarmsFrom_slash stops]
      rfl
  | @comment body _ sameLine stops =>
      have noEnd : ('/' :: '/' :: body).count '\n' = 0 := by
        rw [List.count_eq_zero]
        simpa using sameLine
      rw [noEnd, List.cons_append, alarmsFrom_quiet rfl, List.cons_append, alarmsFrom_quiet rfl]
      exact congrArg _ (alarmsFrom_comment sameLine stops line)
  | @space c _ listed =>
      have known : ∀ d ∈ [' ', '\r', '\t', '\n'], isFine d = true :=
        List.all_eq_true.mp (by decide)
      have fine : ∀ d ∈ [c], isFine d = true := by simpa using known _ listed
      rw [alarmsFrom_fine fine]
      rfl
  | @string body _ unquoted =>
      have opens : Mode.code.read '"' = (.string, false) := rfl
      have closes : Mode.string.read '"' = (.code, false) := rfl
      have text : ('"' :: body ++ ['"']) ++ after = '"' :: (body ++ '"' :: after) := by simp
      have lines : ('"' :: body ++ ['"']).count '\n' = body.count '\n' := by simp
      rw [text, lines, alarmsFrom_quiet opens, alarmsFrom_string unquoted, alarmsFrom_quiet closes]
      rfl
  | @unterminated body unquoted =>
      have opens : Mode.code.read '"' = (.string, false) := rfl
      have lines : ('"' :: body).count '\n' = body.count '\n' := by simp
      rw [lines, List.cons_append, alarmsFrom_quiet opens, alarmsFrom_string unquoted]
      rfl
  | @integer digits _ _ kept _ _ =>
      rw [alarmsFrom_fine fun d member => isFine_of_isDigit (kept d member)]
      rfl
  | @decimal whole fraction _ _ wholeKept _ fractionKept _ =>
      have fine : ∀ d ∈ whole ++ '.' :: fraction, isFine d = true := by
        intro d member
        rw [List.mem_append, List.mem_cons] at member
        rcases member with left | rfl | right
        · exact isFine_of_isDigit (wholeKept d left)
        · decide
        · exact isFine_of_isDigit (fractionKept d right)
      rw [alarmsFrom_fine fine]
      rfl
  | @keyword word _ stops =>
      rw [alarmsFrom_fine fun d member => isFine_of_inWord (inWord_of_mem_spelling word d member)]
      rfl
  | @identifier c others _ start kept _ _ =>
      have part := inWord_of_start start kept
      rw [alarmsFrom_fine fun d member => isFine_of_inWord (part d member)]
      rfl
  | @stray c _ foreign unlisted =>
      have sameLine : c ≠ '\n' := ne_of_not_mem_signs unlisted (by decide)
      have noEnd : [c].count '\n' = 0 := by simp [sameLine]
      rw [List.cons_append, alarmsFrom, read_of_stray foreign unlisted, if_neg sameLine, noEnd]
      rfl

/-! ## Reading a whole text -/

/-- **The simulation.**  From code, the machine raises the alarms that the pieces of
the text report. -/
theorem alarmsFrom_eq_finds {text : List Char} {pieces : List Piece}
    (cutting : Cutting text pieces) (before : List Char) :
    (alarmsFrom .code (lineAfter before) text).map Alarm.report =
      (finds before pieces).filterMap Find.report? := by
  induction cutting generalizing before with
  | nil => rfl
  | @cons piece after pieces longest _ ih =>
      rw [alarmsFrom_piece longest, finds, List.filterMap_append, ← lineAfter_append, ih]

/-- A quote in a comment opens no string, and slashes in a string start no comment. -/
example : alarms "//\"\n@\"//\n".toList = [.unexpected 2, .unterminated 3] := by decide

variable {Sink : Type} [ReportSink Sink]

theorem sink_run_of_alarms (sink : Sink) (text : List Char) :
    (Lexer.ofText text sink).run.sink =
      ReportSink.reportAll sink ((alarms text).map Alarm.report) := by
  have cutting := cutting_segments text
  rw [sink_run_of_cutting cutting, ← alarmsFrom_eq_finds cutting]
  rfl

/-- A collector turns the alarms' reports into their diagnostics. -/
theorem diagnostics_reportAll (text : List Char) :
    (ReportSink.reportAll Collector.empty
      ((alarms text).map Alarm.report)).diagnostics.toList =
      (alarms text).map Alarm.diagnostic := by
  rw [Collector.toList_reportAll, List.map_map, ← funext Alarm.diagnostic_report]
  rfl

theorem diagnostics_ofText (filename text : String) :
    (Scan.ofText filename text).diagnostics = (alarms text.toList).map Alarm.diagnostic := by
  simp only [Scan.ofText, Scan.ofLexer, sink_run_of_alarms]
  exact diagnostics_reportAll text.toList

theorem diagnostics_ofTextInto (sink : Sink) (filename text : String) :
    (Scan.ofTextInto sink filename text).1.diagnostics =
      (alarms text.toList).map Alarm.diagnostic := by
  simp only [Scan.ofTextInto, Scan.ofLexer, sink_run_of_alarms, ReportSink.reportAll_pair]
  exact diagnostics_reportAll text.toList

/-- A text with alarms is refused with all of them. -/
theorem check_of_alarms (filename text : String) :
    Scan.check filename text =
      match (alarms text.toList).map Alarm.diagnostic with
      | [] => .ok (Scan.ofText filename text).tokens
      | first :: others => .error ⟨first, others⟩ := by
  rw [Scan.check, Scan.accepted, diagnostics_ofText]
  cases alarms text.toList <;> rfl

/-- **Complaints need no tokens.**  A lexer reports the alarms of its text, in order; a
scan shows them as diagnostics, also if someone else listens; and a text is accepted
exactly if it raises none, and refused with all of them otherwise. -/
theorem reports_eq_alarms (sink : Sink) (filename text : String) :
    (Lexer.ofText text.toList sink).run.sink =
        ReportSink.reportAll sink ((alarms text.toList).map Alarm.report) ∧
      (Scan.ofText filename text).diagnostics = (alarms text.toList).map Alarm.diagnostic ∧
      (Scan.ofTextInto sink filename text).1.diagnostics =
        (alarms text.toList).map Alarm.diagnostic ∧
      ((∃ tokens, Scan.check filename text = .ok tokens) ↔ alarms text.toList = []) ∧
      Scan.check filename text =
        match (alarms text.toList).map Alarm.diagnostic with
        | [] => .ok (Scan.ofText filename text).tokens
        | first :: others => .error ⟨first, others⟩ := by
  refine ⟨sink_run_of_alarms sink text.toList, diagnostics_ofText filename text,
    diagnostics_ofTextInto sink filename text, ?_, check_of_alarms filename text⟩
  rw [check_of_alarms]
  cases alarms text.toList <;> simp

end LoxLexer
