/-
# LoxLexer.Proofs.EncodedFile -- a file is scanned if its bytes are a text

A file may hold any bytes.  The main statement, `ofFile_accepts_encoded`, takes apart what a
scan of it comes to.  If the bytes encode a text, they encode no other, and the scan
succeeds with the tokens and diagnostics of that text, its line ends unified.  If they encode
none, the scan fails, strict or not, with the place behind the longest part in front that
encodes a text, and so does every command that is given the file, in one line and without
touching a file, the one it was to write among them.

Encoding is measured by the encoder of the standard library, and unifying line ends is said
in two steps: each CR LF becomes an LF, then each CR that is left (`unify_eq_replace`).
-/
import LoxLexer.Proofs.CarriageReturn
import LoxLexer.Proofs.TreeRun
import LoxLexer.Proofs.Utf8Validity

namespace LoxLexer

set_option autoImplicit false

open Text (FitsLine)
open Text.Utf8 (IsLongestText)

/-! ## Line ends -/

namespace Text.Newline

/-- Any CR as LF. -/
def returnAsEnd (c : Char) : Char := if c = '\r' then '\n' else c

/-- After a CR the LF is left out; else the text is read as at its start. -/
theorem unifyAfter_eq_replace {before : Char} {text : List Char}
    (apart : before = '\r' → text.head? ≠ some '\n') :
    unifyAfter before text = (replace text).map returnAsEnd := by
  fun_induction replace text generalizing before with
  | case1 rest ih =>
      have next : unifyAfter '\n' rest = (replace rest).map returnAsEnd :=
        ih fun isReturn => absurd isReturn (by decide)
      simp [reading, returnAsEnd, next]
  | case2 c rest lone ih =>
      have alone : reading before c = [returnAsEnd c] := by
        by_cases isReturn : c = '\r'
        · simp [reading, returnAsEnd, isReturn]
        · have kept : ¬ (c = '\n' ∧ before = '\r') := by
            rintro ⟨rfl, after⟩
            exact apart after rfl
          rw [reading, returnAsEnd, if_neg isReturn, if_neg kept, if_neg isReturn]
      have next : c = '\r' → rest.head? ≠ some '\n' := by
        intro isReturn starts
        obtain ⟨after, rfl⟩ := List.head?_eq_some_iff.mp starts
        exact lone after isReturn rfl
      rw [unifyAfter_cons, alone, ih next, List.map_cons]
      rfl
  | case3 => simp

/-- Unifying line ends is reading each CR LF as LF and then each other CR. -/
theorem unify_eq_replace (text : List Char) :
    unify text = (replace text).map returnAsEnd :=
  unifyAfter_eq_replace fun isReturn => absurd isReturn (by decide)

end Text.Newline

open Text.Newline (replace returnAsEnd)

/-! ## Bytes that are no text -/

theorem encode_inj {text other : String}
    (same : text.toUTF8.data.toList = other.toUTF8.data.toList) : text = other := by
  rw [← Text.Utf8.encode_eq_toUTF8, ← Text.Utf8.encode_eq_toUTF8] at same
  have read := Text.Utf8.decode_encode text.toList
  rw [same, Text.Utf8.decode_encode] at read
  exact (String.toList_inj.mp (Except.ok.inj read)).symm

/-- Bytes that encode no text fail to decode. -/
theorem exists_fault {bytes : List UInt8}
    (foreign : ¬ ∃ text : String, bytes = text.toUTF8.data.toList) :
    ∃ fault, Text.Utf8.decode bytes = .error fault := by
  cases decoded : Text.Utf8.decode bytes with
  | error fault => exact ⟨fault, rfl⟩
  | ok text =>
      refine absurd ⟨String.ofList text, ?_⟩ foreign
      rw [← Text.Utf8.encode_eq_toUTF8, String.toList_ofList]
      exact Text.Utf8.decode_eq_ok_iff.mp decoded

theorem text_of_fault {tree : FileTree} {path : Path} {bytes : List UInt8}
    {fault : Text.Utf8.Fault} (addressable : path.isAddressable = true)
    (held : tree.read path = .ok bytes) (failed : Text.Utf8.decode bytes = .error fault) :
    tree.text path = .error (.encoding fault) := by
  rw [FileTree.text, if_pos addressable, held]
  simp only [textOfBytes, failed]
  rfl

/-- What is wrong with the bytes of a file, as the one line that a run says. -/
theorem lines_of_fault (path : Path) (fault : Text.Utf8.Fault) :
    Response.lines [(Command.Failure.unreadable path (.encoding fault)).diagnostic.display] =
      "Error CLI002: Cannot read input: " ++ fault.message ++
        " Hint: Check that the input file exists and is UTF-8 text.\n" := by
  have advice : (Command.Failure.unreadable path (.encoding fault)).diagnostic.advice =
      " Hint: Check that the input file exists and is UTF-8 text." := by rfl
  have front : "" ++ "Error " ++ "CLI002" ++ ": " ++ "Cannot read input: " =
      "Error CLI002: Cannot read input: " := by rfl
  calc Response.lines [(Command.Failure.unreadable path (.encoding fault)).diagnostic.display]
    _ = "" ++ "Error " ++ "CLI002" ++ ": " ++ ("Cannot read input: " ++ fault.message) ++
          " Hint: Check that the input file exists and is UTF-8 text." ++ "\n" := by
      rw [← advice]
      simp [Response.lines]
      rfl
    _ = _ := by
      rw [← String.append_assoc, front, String.append_assoc]
      rfl

theorem run_of_fault {tree : FileTree} {path : Path} {fault : Text.Utf8.Fault}
    (unread : tree.text path = .error (.encoding fault)) {invocation : Invocation}
    (source : invocation.source = .file path) (debug : Bool) :
    (invocation.run debug : StateM FileTree _) tree =
      (⟨2, "", "Error CLI002: Cannot read input: " ++ fault.message ++
        " Hint: Check that the input file exists and is UTF-8 text.\n"⟩, tree) := by
  have obtained := Invocation.obtain?_of_file source tree
  rw [unread] at obtained
  rw [Invocation.run_eq, obtained]
  show (Response.ofFailure "" (.unreadable path (.encoding fault)), tree) = _
  rw [Response.ofFailure, lines_of_fault, String.empty_append]
  rfl

/-- **A file is scanned if its bytes are a text.**  Let a path lead to a file with some bytes.

* If they encode a text, they encode it alone, and the scan that is not strict succeeds; its
  tokens and diagnostics are those of the text with each CR LF and each other CR as LF,
  whatever its name.
* If they encode none, the scan fails, strict or not, just behind the longest part in front
  that encodes a text.  Each command that is given the file, whatever else it is given,
  answers with exit code 2, nothing on standard output and one line that quotes the
  failure, and leaves all files as they were. -/
theorem ofFile_accepts_encoded {tree : FileTree} {path : Path} {bytes : List UInt8}
    (addressable : path.isAddressable = true) (held : tree.read path = .ok bytes) :
    (∀ text : String, bytes = text.toUTF8.data.toList →
      (∀ other : String, bytes = other.toUTF8.data.toList → other = text) ∧
      ∃ scan, (Scan.ofFile path false : StateM FileTree _) tree = (.ok scan, tree) ∧
        ∀ filename,
          let unified := String.ofList ((replace text.toList).map returnAsEnd)
          scan.tokens = (Scan.ofText filename unified).tokens ∧
            scan.diagnostics = (Scan.ofText filename unified).diagnostics) ∧
    ((¬ ∃ text : String, bytes = text.toUTF8.data.toList) →
      ∃ fault, IsLongestText bytes fault.offset ∧
        (∀ strict, (Scan.ofFile path strict : StateM FileTree _) tree =
          (.error (.unreadable (.encoding fault)), tree)) ∧
        FitsLine fault.message ∧
        ∀ (invocation : Invocation) (debug : Bool), invocation.source = .file path →
          (invocation.run debug : StateM FileTree _) tree =
            (⟨2, "", "Error CLI002: Cannot read input: " ++ fault.message ++
              " Hint: Check that the input file exists and is UTF-8 text.\n"⟩, tree)) := by
  constructor
  · intro text encoded
    refine ⟨fun other same => encode_inj (same.symm.trans encoded), ?_⟩
    have bytesOf : tree.read path = .ok (bytesOfText text) := by
      rw [held, encoded, bytesOfText, Text.Utf8.encode_eq_toUTF8]
    have read := text_of_read addressable bytesOf
    refine ⟨Scan.ofText path.text (String.ofList (Text.Newline.unify text.toList)), ?_, ?_⟩
    · rw [Scan.run_ofFile, read]
      rfl
    · intro filename
      rw [Text.Newline.unify_eq_replace]
      exact ⟨rfl, rfl⟩
  · intro foreign
    obtain ⟨fault, failed⟩ := exists_fault foreign
    have unread := text_of_fault addressable held failed
    refine ⟨fault, Text.Utf8.isLongestText_of_decode failed, fun strict => ?_,
      fault.message_fits_line, fun invocation debug source => run_of_fault unread source debug⟩
    rw [Scan.run_ofFile, unread]

/-- A byte order mark and two kinds of line end, and then a letter before a character that
breaks off, for a run that was to write a file. -/
theorem ofFile_accepts_encoded_until_broken :
    let text := "\uFEFF\r1\r\n"
    let broken : List UInt8 := [0x61, 0xE2, 0x82]
    let path := Path.ofText "a.lox"
    let held (bytes : List UInt8) : FileTree := ⟨[(["a.lox"], .file bytes)], []⟩
    let invocation : Invocation := ⟨.tokens, some "a.lox", none, true, some "out", false⟩
    path.isAddressable = true ∧
    (held text.toUTF8.data.toList).read path = .ok text.toUTF8.data.toList ∧
    (held broken).read path = .ok broken ∧ invocation.source = .file path ∧
    (∃ scan, (Scan.ofFile path false : StateM FileTree _) (held text.toUTF8.data.toList) =
        (.ok scan, held text.toUTF8.data.toList) ∧
      scan.tokens = [⟨.number, "1", .number (Numeral.Binary64.ofNumeral ['1']), 2⟩, .endOfInput 3] ∧
      scan.diagnostics = [Report.diagnostic ⟨1, Report.unexpectedCharacter⟩]) ∧
    (¬ ∃ text : String, broken = text.toUTF8.data.toList) ∧
    IsLongestText broken 1 ∧
    (invocation.run false : StateM FileTree _) (held broken) =
      (⟨2, "", "Error CLI002: Cannot read input: 'utf-8' codec can't decode " ++
        "bytes in position 1-2: unexpected end of data " ++
        "Hint: Check that the input file exists and is UTF-8 text.\n"⟩, held broken) := by
  intro text broken path held invocation
  have addressable : path.isAddressable = true := by decide
  have whole : (held text.toUTF8.data.toList).read path = .ok text.toUTF8.data.toList := by rfl
  have partly : (held broken).read path = .ok broken := by rfl
  have source : invocation.source = .file path := by rfl
  have foreign : ¬ ∃ text : String, broken = text.toUTF8.data.toList := by
    rintro ⟨other, same⟩
    rw [← Text.Utf8.encode_eq_toUTF8] at same
    have decoded := Text.Utf8.decode_eq_ok_iff.mpr same
    cases decoded
  obtain ⟨scan, scanned, found⟩ :=
    ((ofFile_accepts_encoded addressable whole).1 text rfl).2
  obtain ⟨fault, longest, fails, -, answers⟩ :=
    (ofFile_accepts_encoded addressable partly).2 foreign
  have decoded : Text.Utf8.decode broken = .error ⟨1, [0xE2, 0x82], .truncated⟩ := by rfl
  have located := fails false
  rw [Scan.run_ofFile, text_of_fault addressable partly decoded] at located
  cases located
  refine ⟨addressable, whole, partly, source, ⟨scan, scanned, ?_, ?_⟩, foreign, longest,
    answers invocation false source⟩
  · rw [(found Scan.unnamed).1]
    decide +kernel
  · rw [(found Scan.unnamed).2]
    decide +kernel

end LoxLexer
