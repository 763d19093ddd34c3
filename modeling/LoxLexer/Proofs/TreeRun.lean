/-
# LoxLexer.Proofs.TreeRun -- what a run on a file tree comes to

A run obtains its source (`Invocation.obtain?`), or fails, and delivers the scan of it
(`run_eq`).  Until it delivers it has touched no file, and a check or a run that writes
to standard output never does (`run_of_no_file`).

A failure is told in one line that starts with its code (`isErrorLine_of_fitsLine`), as
what a file tree refuses, and what the bytes of a file fail to encode, have messages
that fit a line.
-/
import LoxLexer.Command.Run
import LoxLexer.Proofs.AsciiText
import LoxLexer.Proofs.Resumption
import LoxLexer.Proofs.TreeAccess

namespace LoxLexer

set_option autoImplicit false

open Text (FitsLine fitsLine_of_all toString_fits_line quoted_fits_line)

/-! ## Obtaining a source and delivering its scan -/

/-- Who listens to a lexer does not change what it finds. -/
@[simp] theorem traced_fst (filename text : String) :
    (Scan.traced filename text).1 = Scan.ofText filename text := by
  simp only [Scan.traced, Scan.ofText, Scan.ofLexer, Lexer.tokens_run_ofText,
    Lexer.sink_run_ofText, ReportSink.reportAll_pair]

namespace Invocation

/-- The name and text of the source of an invocation, or why there is none. -/
def obtain? (invocation : Invocation) (tree : FileTree) :
    Except Command.Failure (String × String) :=
  match invocation.source with
  | .both => .error .bothSources
  | .neither => .error .noSource
  | .inline text => .ok (inlineName, text)
  | .file path =>
      match tree.text path with
      | .error fault => .error (.unreadable path fault)
      | .ok text => .ok (path.text, text)

theorem obtain?_of_file {invocation : Invocation} {path : Path}
    (source : invocation.source = .file path) (tree : FileTree) :
    invocation.obtain? tree =
      ((tree.text path).mapError (Command.Failure.unreadable path)).map (path.text, ·) := by
  unfold obtain?
  simp only [source]
  cases tree.text path <;> rfl

/-- The records of scanning a text, which are kept in a debug run only. -/
def records (debug : Bool) (filename text : String) : List LogRecord :=
  if debug then (Scan.traced filename text).2 else []

/-- Records as they stand on standard error. -/
def log (records : List LogRecord) : String := String.join (records.map LogRecord.line)

/-- **A run on a file tree** obtains its source and delivers the scan of it. -/
theorem run_eq (invocation : Invocation) (debug : Bool) (tree : FileTree) :
    (invocation.run debug : StateM FileTree _) tree =
      match invocation.obtain? tree with
      | .error failure => (.ofFailure "" failure, tree)
      | .ok (filename, text) =>
          (invocation.deliver (log (records (invocation.debug || debug) filename text))
            (Scan.ofText filename text) : StateM FileTree _) tree := by
  have answer (filename text : String) :
      (invocation.answer (invocation.debug || debug) filename text : StateM FileTree _) =
        invocation.deliver (log (records (invocation.debug || debug) filename text))
          (Scan.ofText filename text) := by
    rw [← traced_fst, records, log]
    cases invocation.debug || debug <;> rfl
  unfold run obtain?
  cases invocation.source with
  | both => rfl
  | neither => rfl
  | inline text =>
      dsimp only
      rw [answer]
  | file path =>
      dsimp only
      rw [FileTree.run_bind, FileTree.run_readText]
      cases tree.text path with
      | error fault => rfl
      | ok text =>
          dsimp only
          rw [answer]

/-- The file that an invocation writes, if it writes one. -/
def file? (invocation : Invocation) : Option Path :=
  match invocation.command with
  | .check => none
  | .tokens => invocation.target?

/-- What an invocation that writes no file says of a scan. -/
def spoken (invocation : Invocation) (scan : Scan) : String :=
  match invocation.command with
  | .check => if scan.ok then "OK\n" else ""
  | .tokens => invocation.rendering scan

theorem deliver_of_no_file {invocation : Invocation} (noFile : invocation.file? = none)
    (log : String) (scan : Scan) (tree : FileTree) :
    (invocation.deliver log scan : StateM FileTree _) tree =
      (.ofScan log (invocation.spoken scan) scan, tree) := by
  unfold deliver spoken
  unfold file? at noFile
  cases command : invocation.command with
  | check => rfl
  | tokens =>
      rw [command] at noFile
      dsimp only at noFile ⊢
      rw [noFile]
      rfl

/-- **A run that writes no file** answers with the scan of its source or the want of one,
and changes nothing. -/
theorem run_of_no_file {invocation : Invocation} (noFile : invocation.file? = none)
    (debug : Bool) (tree : FileTree) :
    (invocation.run debug : StateM FileTree _) tree =
      match invocation.obtain? tree with
      | .error failure => (.ofFailure "" failure, tree)
      | .ok (filename, text) =>
          (.ofScan (log (records (invocation.debug || debug) filename text))
            (invocation.spoken (Scan.ofText filename text)) (Scan.ofText filename text), tree) := by
  rw [run_eq]
  cases invocation.obtain? tree with
  | error failure => rfl
  | ok source => exact deliver_of_no_file noFile _ _ tree

theorem exitCode_ofScan_le (log stdout : String) (scan : Scan) :
    (Response.ofScan log stdout scan).exitCode ≤ 1 := by
  show (if scan.ok then 0 else 1) ≤ 1
  split <;> omega

end Invocation

/-! ## Failures in one line -/

/-- A line on standard error that tells of an error with this code. -/
def IsErrorLine (code text : String) : Prop :=
  ∃ rest, FitsLine rest ∧ text = "Error " ++ code ++ ": " ++ rest ++ "\n"

theorem FileFault.message_fits_line (path : Path) {fault : FileFault}
    (known : FileTree.Knows fault) : FitsLine (fault.message path) := by
  have description : FitsLine fault.description := by
    simp only [FileTree.Knows, List.mem_cons, List.not_mem_nil, or_false] at known
    rcases known with rfl | rfl | rfl | rfl <;> exact fitsLine_of_all rfl
  have front : FitsLine "[Errno " := fitsLine_of_all rfl
  exact (((front.append (toString_fits_line fault.number)).append (fitsLine_of_all rfl)).append
    description |>.append (fitsLine_of_all rfl)).append (quoted_fits_line path.text)

/-- What is wrong with the bytes of a file is said in numbers and fixed words. -/
theorem Text.Utf8.Fault.message_fits_line (fault : Fault) : FitsLine fault.message := by
  have cause : FitsLine fault.cause.message := by
    cases fault.cause <;> exact fitsLine_of_all rfl
  have place : FitsLine fault.place := by
    unfold place
    split
    · rename_i byte _
      have digits : FitsLine (String.ofList (hex 2 byte.toNat)) :=
        fitsLine_of_shown fun c => shown_of_mem_hex
      have front : FitsLine "byte 0x" := fitsLine_of_all rfl
      exact ((front.append digits).append (fitsLine_of_all rfl)).append
        (toString_fits_line fault.offset)
    · have front : FitsLine "bytes in position " := fitsLine_of_all rfl
      exact ((front.append (toString_fits_line fault.offset)).append (fitsLine_of_all rfl)).append
        (toString_fits_line _)
  have front : FitsLine "'utf-8' codec can't decode " := fitsLine_of_all rfl
  exact ((front.append place).append (fitsLine_of_all rfl)).append cause

/-- Why a file tree gives no text fits a line. -/
theorem message_fits_line_of_text {tree : FileTree} {path : Path} {fault : ReadFault}
    (failed : tree.text path = .error fault) : FitsLine (fault.message path) := by
  unfold FileTree.text at failed
  split at failed
  · split at failed
    · rename_i bytes _
      cases decoded : textOfBytes bytes with
      | error cause =>
          rw [decoded] at failed
          cases failed
          exact cause.message_fits_line
      | ok text =>
          rw [decoded] at failed
          cases failed
    · rename_i refused found
      cases failed
      exact refused.message_fits_line path (FileTree.knows_of_read found)
  · cases failed
    show FitsLine "embedded null byte"
    exact fitsLine_of_all rfl

theorem Diagnostic.hintFor_fits_line (code : String) : FitsLine (hintFor code) := by
  have all : ∀ entry ∈ hints, FitsLine entry.2 := by
    simp only [hints, List.forall_mem_cons]
    refine ⟨?_, ?_, ?_, ?_, ?_, ?_, List.forall_mem_nil _⟩ <;> exact fitsLine_of_all rfl
  unfold hintFor
  cases found : hints.lookup code with
  | none =>
      show FitsLine ""
      decide
  | some hint =>
      obtain ⟨before, after, split, _⟩ := List.lookup_eq_some_iff.mp found
      exact all (code, hint) (by rw [split]; simp)

namespace Command.Failure

theorem exitCode_eq (failure : Command.Failure) : failure.exitCode = 2 ∨ failure.exitCode = 3 := by
  unfold exitCode
  split
  · exact .inr rfl
  · exact .inl rfl

/-- **A failure whose details fit a line is told in one line**, which starts with its
code. -/
theorem isErrorLine_of_fitsLine {failure : Command.Failure} (details : FitsLine failure.details) :
    IsErrorLine failure.code (Response.lines [failure.diagnostic.display]) := by
  have lead : FitsLine failure.lead := by
    unfold Command.Failure.lead
    split
    · exact fitsLine_of_all rfl
    · split <;> exact fitsLine_of_all rfl
  have advice : FitsLine failure.diagnostic.advice := by
    unfold Diagnostic.advice
    split
    · decide
    · exact FitsLine.append (fitsLine_of_all rfl) (Diagnostic.hintFor_fits_line failure.code)
  refine ⟨failure.lead ++ failure.details ++ failure.diagnostic.advice,
    (lead.append details).append advice, ?_⟩
  simp [Response.lines, Diagnostic.display, Diagnostic.place, diagnostic, Diagnostic.ofCode,
    String.append_assoc]

end Command.Failure

/-- What keeps a run from a source is told in one line. -/
theorem Invocation.isErrorLine_of_obtain? {invocation : Invocation} {tree : FileTree}
    {failure : Command.Failure} (failed : invocation.obtain? tree = .error failure) :
    IsErrorLine failure.code (Response.lines [failure.diagnostic.display]) := by
  refine Command.Failure.isErrorLine_of_fitsLine ?_
  unfold obtain? at failed
  split at failed
  · cases failed
    exact fitsLine_of_all rfl
  · cases failed
    exact fitsLine_of_all rfl
  · cases failed
  · split at failed
    · rename_i fault found
      cases failed
      exact message_fits_line_of_text found
    · cases failed

end LoxLexer
