/-
# LoxLexer.Proofs.Agreement -- two commands and the library give one verdict

A check, the tokens on standard output and the library's strict scan each decide for
themselves whether a source is good.  They decide alike: `check_agrees_tokens` compares
the two commands on any file tree, and what they report with the outcome of the
library's scan of the same source (`Tells`).

A command tells four outcomes apart by its exit code: a scan without diagnostics, a
scan with some, a file that cannot be read, and a path that no file system can be asked
about.  The last two are told in one line, the diagnostics in one display each.
-/
import LoxLexer.Proofs.TreeRun

namespace LoxLexer

set_option autoImplicit false

/-- A response tells the outcome of a strict scan: by its exit code which of the four
kinds it is of, and on standard error why. -/
structure Tells {Result : Type} (outcome : Except Scan.Refusal Result) (response : Response) :
    Prop where
  accepted : response.exitCode = 0 ↔ ∃ result, outcome = .ok result
  rejected : response.exitCode = 1 ↔ ∃ rejection, outcome = .error (.rejected rejection)
  unreadable : response.exitCode = 2 ↔
    ∃ fault, outcome = .error (.unreadable fault) ∧ fault ≠ .access .unaddressable
  internal : response.exitCode = 3 ↔ outcome = .error (.unreadable (.access .unaddressable))
  silence : response.exitCode = 0 → response.stderr = ""
  diagnostics : ∀ rejection, outcome = .error (.rejected rejection) →
    response.stderr = Response.lines (rejection.diagnostics.map Diagnostic.display)
  complaint : response.exitCode = 2 → IsErrorLine "CLI002" response.stderr
  alarm : response.exitCode = 3 → IsErrorLine "CLI999" response.stderr

/-! ## Each outcome is told -/

/-- What keeps a file from being read is internal only if the path itself is at fault. -/
theorem Command.Failure.isInternal_unreadable (path : Path) (fault : ReadFault) :
    (Command.Failure.unreadable path fault).isInternal =
      decide (fault = .access .unaddressable) := by
  cases fault with
  | access fault => cases fault <;> simp [isInternal]
  | encoding fault => simp [isInternal]

/-- A scan is told by its diagnostics. -/
theorem tells_ofScan {Result : Type} (keep : List Token → Result) (stdout : String)
    (scan : Scan) :
    Tells ((scan.accepted.map keep).mapError .rejected) (.ofScan "" stdout scan) := by
  obtain ⟨filename, tokens, diagnostics⟩ := scan
  cases diagnostics with
  | nil =>
      show Tells (.ok (keep tokens)) ⟨0, stdout, ""⟩
      constructor <;> simp
  | cons first others =>
      have silentLog : "" ++ Response.lines ((first :: others).map Diagnostic.display) =
          Response.lines ((first :: others).map Diagnostic.display) := String.empty_append
      show Tells (.error (.rejected ⟨first, others⟩)) ⟨1, stdout, "" ++ Response.lines _⟩
      rw [silentLog]
      constructor <;> simp [Rejection.diagnostics]

/-- A file that gives no text is told by the reason. -/
theorem tells_unreadable {Result : Type} {path : Path} {fault : ReadFault}
    (line : IsErrorLine (Command.Failure.unreadable path fault).code
      (Response.lines [(Command.Failure.unreadable path fault).diagnostic.display])) :
    Tells (Except.error (.unreadable fault) : Except _ Result)
      (.ofFailure "" (.unreadable path fault)) := by
  have isInternal := Command.Failure.isInternal_unreadable path fault
  rw [Response.ofFailure, String.empty_append, Command.Failure.exitCode, isInternal]
  rw [Command.Failure.code, isInternal] at line
  by_cases internal : fault = .access .unaddressable
  · subst internal
    constructor <;> simp
    exact line
  · simp only [internal, decide_false, Bool.false_eq_true, if_false] at line ⊢
    constructor <;> simp [internal]
    exact line

/-! ## The commands and the library -/

/-- An invocation that writes no file and keeps no records. -/
structure Invocation.IsPlain (invocation : Invocation) : Prop where
  noFile : invocation.file? = none
  quiet : invocation.debug = false

theorem fst_run_of_isPlain {invocation : Invocation} (plain : invocation.IsPlain)
    (tree : FileTree) :
    ((invocation.run false : StateM FileTree _) tree).1 =
      match invocation.obtain? tree with
      | .error failure => .ofFailure "" failure
      | .ok (filename, text) =>
          .ofScan "" (invocation.spoken (Scan.ofText filename text))
            (Scan.ofText filename text) := by
  rw [Invocation.run_of_no_file plain.noFile, plain.quiet]
  cases invocation.obtain? tree <;> rfl

/-- A path that no file system can be asked about, and no other, is at fault itself. -/
theorem text_eq_unaddressable_iff (tree : FileTree) (path : Path) :
    tree.text path = .error (.access .unaddressable) ↔ ¬ path.isAddressable := by
  unfold FileTree.text
  split
  · rename_i addressable
    simp only [addressable, not_true, iff_false]
    split
    · rename_i bytes _
      cases textOfBytes bytes with
      | error fault =>
          show Except.error (ReadFault.encoding fault) ≠ _
          simp
      | ok text =>
          show Except.ok text ≠ _
          simp
    · simp
  · rename_i unaddressable
    simp [unaddressable]

section Verdicts

variable {invocation : Invocation} (plain : invocation.IsPlain) (tree : FileTree)

include plain

/-- A run on a file tells the outcome of the strict scan of the file. -/
theorem tells_of_file {path : Path} (source : invocation.source = .file path) :
    Tells ((Scan.ofFile path true : StateM FileTree _) tree).1
        ((invocation.run false : StateM FileTree _) tree).1 ∧
      (((invocation.run false : StateM FileTree _) tree).1.exitCode = 3 ↔
        ¬ path.isAddressable) := by
  have obtained := Invocation.obtain?_of_file source tree
  rw [fst_run_of_isPlain plain, obtained, Scan.run_ofFile, ← text_eq_unaddressable_iff tree]
  cases read : tree.text path with
  | error fault =>
      rw [read] at obtained
      have tells : Tells (.error (.unreadable fault) : Except Scan.Refusal Scan)
          (.ofFailure "" (.unreadable path fault)) :=
        tells_unreadable (Invocation.isErrorLine_of_obtain? obtained)
      refine ⟨tells, ?_⟩
      show (Response.ofFailure "" (.unreadable path fault)).exitCode = 3 ↔ _
      rw [tells.internal]
      simp
  | ok text =>
      have tells := tells_ofScan (fun _ => Scan.ofText path.text text)
        (invocation.spoken (Scan.ofText path.text text)) (Scan.ofText path.text text)
      refine ⟨tells, ?_⟩
      show (Response.ofScan "" _ (Scan.ofText path.text text)).exitCode = 3 ↔ _
      rw [tells.internal]
      cases (Scan.ofText path.text text).accepted with
      | error rejection =>
          show Except.error (Scan.Refusal.rejected rejection) = _ ↔ _
          simp
      | ok tokens =>
          show Except.ok _ = _ ↔ _
          simp

/-- A run on a text tells the outcome of the check of the text, whatever its name. -/
theorem tells_of_inline {text : String} (source : invocation.source = .inline text)
    (name : String) :
    Tells ((Scan.check name text).mapError .rejected)
      ((invocation.run false : StateM FileTree _) tree).1 := by
  have obtained : invocation.obtain? tree = .ok (Invocation.inlineName, text) := by
    rw [Invocation.obtain?, source]
  have tells := tells_ofScan id (invocation.spoken (Scan.ofText Invocation.inlineName text))
    (Scan.ofText Invocation.inlineName text)
  rw [Except.map_id] at tells
  rw [fst_run_of_isPlain plain, obtained]
  exact tells

/-- A run with two sources or none is one error line. -/
theorem error_of_no_source (source : invocation.source = .both ∨ invocation.source = .neither) :
    ((invocation.run false : StateM FileTree _) tree).1.exitCode = 2 ∧
      IsErrorLine "CLI001" ((invocation.run false : StateM FileTree _) tree).1.stderr := by
  rw [fst_run_of_isPlain plain]
  rcases source with both | neither
  · have obtained : invocation.obtain? tree = .error .bothSources := by
      rw [Invocation.obtain?, both]
    rw [obtained]
    exact ⟨rfl, Invocation.isErrorLine_of_obtain? obtained⟩
  · have obtained : invocation.obtain? tree = .error .noSource := by
      rw [Invocation.obtain?, neither]
    rw [obtained]
    exact ⟨rfl, Invocation.isErrorLine_of_obtain? obtained⟩

/-- Something is said of a scan alone. -/
theorem stdout_of_failure
    (late : 1 < ((invocation.run false : StateM FileTree _) tree).1.exitCode) :
    ((invocation.run false : StateM FileTree _) tree).1.stdout = "" := by
  rw [fst_run_of_isPlain plain] at late ⊢
  cases obtained : invocation.obtain? tree with
  | error failure => rfl
  | ok source =>
      rw [obtained] at late
      have early := Invocation.exitCode_ofScan_le ""
        (invocation.spoken (Scan.ofText source.1 source.2)) (Scan.ofText source.1 source.2)
      exact absurd late (Nat.not_lt.mpr early)

end Verdicts

/-- A check says `OK` of a scan without diagnostics and nothing else. -/
theorem stdout_of_check {invocation : Invocation} (check : invocation.command = .check)
    (plain : invocation.IsPlain) (tree : FileTree) :
    ((invocation.run false : StateM FileTree _) tree).1.stdout =
      if ((invocation.run false : StateM FileTree _) tree).1.exitCode = 0 then "OK\n" else "" := by
  rw [fst_run_of_isPlain plain]
  cases invocation.obtain? tree with
  | error failure =>
      have nonzero : failure.exitCode ≠ 0 := by
        have late := failure.exitCode_eq
        omega
      exact (if_neg nonzero).symm
  | ok source =>
      show invocation.spoken (Scan.ofText source.1 source.2) = _
      rw [Invocation.spoken, check]
      cases accepted : (Scan.ofText source.1 source.2).ok <;> simp [Response.ofScan, accepted]

/-- Runs with one source that write no file end alike. -/
theorem alike_of_source {one other : Invocation} (first : one.IsPlain) (second : other.IsPlain)
    (source : one.source = other.source) (tree : FileTree) :
    ((one.run false : StateM FileTree _) tree).1.exitCode =
        ((other.run false : StateM FileTree _) tree).1.exitCode ∧
      ((one.run false : StateM FileTree _) tree).1.stderr =
        ((other.run false : StateM FileTree _) tree).1.stderr := by
  have obtained : one.obtain? tree = other.obtain? tree := by
    rw [Invocation.obtain?, Invocation.obtain?, source]
  rw [fst_run_of_isPlain first, fst_run_of_isPlain second, obtained]
  cases other.obtain? tree <;> exact ⟨rfl, rfl⟩

/-- **Two commands and the library agree.**  Take a file tree and any choice of a path
and a text to scan.  A check and the tokens on standard output end with one exit code and
say the same on standard error.  If there is a path alone, that tells the outcome of the
library's strict scan of the file, with exit code 3 exactly for a path with U+0000; if there
is a text alone, the outcome of its check of the text; with both or neither it is one
error line.  An empty path counts as none, an empty text as a text. -/
theorem check_agrees_tokens (tree : FileTree) (input code : Option String) (json : Bool) :
    let check : Invocation := ⟨.check, input, code, false, none, false⟩
    let tokens : Invocation := ⟨.tokens, input, code, json, none, false⟩
    let checked := ((check.run false : StateM FileTree _) tree).1
    let listed := ((tokens.run false : StateM FileTree _) tree).1
    listed.exitCode = checked.exitCode ∧ listed.stderr = checked.stderr ∧
    checked.stdout = (if checked.exitCode = 0 then "OK\n" else "") ∧
    (1 < listed.exitCode → listed.stdout = "") ∧
    match Invocation.path? input, code with
    | some path, none =>
        Tells ((Scan.ofFile path true : StateM FileTree _) tree).1 checked ∧
        (checked.exitCode = 3 ↔ ¬ path.isAddressable)
    | none, some text => Tells ((Scan.check Scan.unnamed text).mapError .rejected) checked
    | _, _ => checked.exitCode = 2 ∧ IsErrorLine "CLI001" checked.stderr := by
  intro check tokens checked listed
  have plain : check.IsPlain := ⟨rfl, rfl⟩
  have plainTokens : tokens.IsPlain := ⟨rfl, rfl⟩
  obtain ⟨exitCode, stderr⟩ := alike_of_source plainTokens plain rfl tree
  refine ⟨exitCode, stderr, stdout_of_check rfl plain tree, stdout_of_failure plainTokens tree, ?_⟩
  cases given : Invocation.path? input with
  | some path =>
      cases code with
      | some text =>
          have source : check.source = .both := by simp [Invocation.source, check, given]
          exact error_of_no_source plain tree (.inl source)
      | none =>
          have source : check.source = .file path := by simp [Invocation.source, check, given]
          exact tells_of_file plain tree source
  | none =>
      cases code with
      | some text =>
          have source : check.source = .inline text := by simp [Invocation.source, check, given]
          exact tells_of_inline plain tree source Scan.unnamed
      | none =>
          have source : check.source = .neither := by simp [Invocation.source, check, given]
          exact error_of_no_source plain tree (.inr source)

end LoxLexer
