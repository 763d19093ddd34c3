/-
# LoxLexer.Proofs.CarriageReturn -- a file with CR LF line ends scans like its text

A file is read with its line ends unified; a text from elsewhere is scanned as it is.  If
every CR of the text has an LF after it (`Paired`), the two scans agree, up to the CR LFs
within strings: `ofFile_of_crlf`.

Under that condition, unifying line ends and replacing each CR LF are both the same as
leaving out the CRs (`shorten`), so the proof goes piece by piece through a text and the
same text without its CRs.  A CR on its own is a blank and vanishes; a comment loses the CR
at its end; a string loses those inside; every other piece has none, and what comes after
it starts as it did or with an LF, which no piece goes on with
(`Longest.isReturn_or_survives`).  The condition is needed throughout: without it, an LF
would take the place of a CR that ends no line.
-/
import LoxLexer.Proofs.Alarm
import LoxLexer.Proofs.Boundary
import LoxLexer.Proofs.ChangedText
import LoxLexer.Proofs.TreeAccess
import LoxLexer.Proofs.Utf8

namespace LoxLexer

set_option autoImplicit false

/-! ## Carriage returns -/

namespace Text.Newline

/-- Every CR of a text has an LF directly after it. -/
def Paired : List Char → Prop
  | [] => True
  | c :: rest => (c = '\r' → rest.head? = some '\n') ∧ Paired rest

instance : (text : List Char) → Decidable (Paired text)
  | [] => inferInstanceAs (Decidable True)
  | c :: rest =>
      have : Decidable (Paired rest) := instDecidablePaired rest
      inferInstanceAs (Decidable ((c = '\r' → rest.head? = some '\n') ∧ Paired rest))

/-- A text with each CR LF as LF.  A lone CR stays. -/
def replace : List Char → List Char
  | '\r' :: '\n' :: rest => '\n' :: replace rest
  | c :: rest => c :: replace rest
  | [] => []

/-- A text with no CR. -/
def shorten (text : List Char) : List Char := text.filter (· ≠ '\r')

@[simp] theorem shorten_nil : shorten [] = [] := by
  simp [shorten]

@[simp] theorem shorten_return (text : List Char) : shorten ('\r' :: text) = shorten text := by
  simp [shorten]

@[simp] theorem shorten_cons_of_ne {c : Char} (other : c ≠ '\r') (text : List Char) :
    shorten (c :: text) = c :: shorten text := by
  simp [shorten, other]

@[simp] theorem shorten_append (first second : List Char) :
    shorten (first ++ second) = shorten first ++ shorten second := List.filter_append ..

theorem shorten_of_not_mem {text : List Char} (absent : '\r' ∉ text) : shorten text = text := by
  rw [shorten, List.filter_eq_self]
  intro c member
  have other : c ≠ '\r' := by
    rintro rfl
    exact absent member
  simp [other]

theorem replace_of_not_mem {text : List Char} (absent : '\r' ∉ text) : replace text = text := by
  fun_induction replace text with
  | case1 rest ih => exact absurd List.mem_cons_self absent
  | case2 c rest lone ih => rw [ih fun member => absent (List.mem_cons_of_mem c member)]
  | case3 => rfl

theorem not_mem_shorten {text : List Char} {c : Char} (absent : c ∉ text) :
    c ∉ shorten text := fun member => absent (List.mem_filter.mp member).1

@[simp] theorem count_newline_shorten (text : List Char) :
    (shorten text).count '\n' = text.count '\n' :=
  List.count_filter (by decide)

theorem Paired.tail {c : Char} {text : List Char} (paired : Paired (c :: text)) : Paired text :=
  paired.2

theorem Paired.of_append {first second : List Char} (paired : Paired (first ++ second)) :
    Paired second := by
  induction first with
  | nil => exact paired
  | cons c rest ih => exact ih paired.tail

/-- A part of the text in front, if it does not end between a CR and its LF. -/
theorem Paired.left {first second : List Char} (paired : Paired (first ++ second))
    (apart : first.getLast? ≠ some '\r' ∨ second.head? ≠ some '\n') : Paired first := by
  induction first with
  | nil => trivial
  | cons c rest ih =>
      cases rest with
      | nil =>
          refine ⟨fun isReturn => ?_, trivial⟩
          rcases apart with last | start
          · exact absurd (congrArg some isReturn) last
          · exact absurd (paired.1 isReturn) start
      | cons d others => exact ⟨paired.1, ih paired.tail apart⟩

theorem Paired.head {c : Char} {text : List Char} (paired : Paired (c :: text)) :
    c ≠ '\r' ∨ ∃ rest, c = '\r' ∧ text = '\n' :: rest := by
  by_cases isReturn : c = '\r'
  · subst isReturn
    obtain ⟨rest, rfl⟩ := List.head?_eq_some_iff.mp (paired.1 rfl)
    exact .inr ⟨rest, rfl, rfl⟩
  · exact .inl isReturn

/-- In a text whose CRs are paired, replacing them is leaving them out. -/
theorem replace_eq_shorten {text : List Char} (paired : Paired text) :
    replace text = shorten text := by
  fun_induction replace text with
  | case1 rest ih => simp [ih paired.tail.tail]
  | case2 c rest lone ih =>
      rcases paired.head with other | ⟨after, rfl, rfl⟩
      · rw [shorten_cons_of_ne other, ih paired.tail]
      · exact absurd rfl (lone after rfl)
  | case3 => simp

/-- So is reading them from a file. -/
theorem unifyAfter_eq_shorten {before : Char} {text : List Char} (paired : Paired text)
    (other : before ≠ '\r') : unifyAfter before text = shorten text := by
  fun_induction replace text generalizing before with
  | case1 rest ih =>
      have next := ih paired.tail.tail (show '\n' ≠ '\r' by decide)
      simp [reading, next]
  | case2 c rest lone ih =>
      rcases paired.head with same | ⟨after, rfl, rfl⟩
      · have alone : reading before c = [c] := by simp [reading, same, other]
        rw [unifyAfter_cons, alone, ih paired.tail same, shorten_cons_of_ne same]
        rfl
      · exact absurd rfl (lone after rfl)
  | case3 => simp

theorem unify_eq_shorten {text : List Char} (paired : Paired text) :
    unify text = shorten text := unifyAfter_eq_shorten paired (by decide)

/-- What the text left starts with, it started with before, unless that is the LF of a
CR LF. -/
theorem Paired.first_shorten {text : List Char} (paired : Paired text) {c : Char}
    {rest : List Char} (short : shorten text = c :: rest) (other : c ≠ '\n') :
    ∃ after, text = c :: after ∧ shorten after = rest := by
  cases text with
  | nil => cases short
  | cons first after =>
      rcases paired.head with kept | ⟨rest, rfl, rfl⟩
      · rw [shorten_cons_of_ne kept, List.cons.injEq] at short
        obtain ⟨rfl, left⟩ := short
        exact ⟨after, rfl, left⟩
      · cases short
        exact absurd rfl other

theorem Paired.mem_head?_shorten {text : List Char} (paired : Paired text) {c : Char}
    (member : c ∈ (shorten text).head?) : c ∈ text.head? ∨ c = '\n' := by
  by_cases isEnd : c = '\n'
  · exact .inr isEnd
  · obtain ⟨rest, short⟩ := List.head?_eq_some_iff.mp (Option.mem_def.mp member)
    obtain ⟨after, rfl, -⟩ := paired.first_shorten short isEnd
    exact .inl rfl

end Text.Newline

/-! ## Pieces without carriage returns -/

open Text.Newline

/-- What follows starts with no character of a class that has no LF, even if the CRs are
left out. -/
theorem NoMore.before_shorten {among : Char → Bool} {after : List Char}
    (stops : NoMore among after) (paired : Paired after) (noEnd : among '\n' = false) :
    NoMore among (shorten after) := by
  refine stops.exchange fun c member => ?_
  rcases paired.mem_head?_shorten member with same | rfl
  · exact .inl same
  · exact .inr noEnd

/-- A piece stays the longest when the CRs after it are left out, if more than the end of
the text closes it. -/
theorem Longest.before_shorten {piece : Piece} {after : List Char} (longest : Longest piece after)
    (paired : Paired after) (closed : ¬ piece.IsUnclosed) :
    Longest piece (shorten after) := by
  refine longest.exchange closed (fun c member => ?_) fun _ d rest short digit => ?_
  · rcases paired.mem_head?_shorten member with same | isEnd
    · exact .inl same
    · exact .inr (.inl isEnd)
  · have noEnd : d ≠ '\n' := by
      rintro rfl
      cases digit
    obtain ⟨others, rfl, left⟩ := paired.first_shorten short (by decide)
    obtain ⟨more, rfl, -⟩ := paired.tail.first_shorten left noEnd
    exact ⟨more, rfl⟩

/-- A piece is read from a text without CRs as it was with them: it is the longest there,
and what it yields is what it yielded, with each CR LF as LF. -/
def Piece.Survives (piece : Piece) (after : List Char) : Prop :=
  Longest (piece.mapText shorten) (shorten after) ∧
    ∀ line, (piece.mapText shorten).find? line = (piece.mapText replace).find? line

/-- Of a piece that holds no CR, nothing is left out. -/
theorem Longest.survives {text after : List Char} {outcome : Segment.Outcome}
    (longest : Longest ⟨text, outcome⟩ after) (paired : Paired (text ++ after))
    (absent : '\r' ∉ text) (plain : ∀ change, outcome.mapText change = outcome)
    (closed : outcome ≠ .complaint Report.unterminatedString) :
    Piece.Survives ⟨text, outcome⟩ after := by
  have short : Piece.mapText shorten ⟨text, outcome⟩ = ⟨text, outcome⟩ := by
    rw [Piece.mapText, shorten_of_not_mem absent, plain]
  have replaced : Piece.mapText replace ⟨text, outcome⟩ = ⟨text, outcome⟩ := by
    rw [Piece.mapText, replace_of_not_mem absent, plain]
  refine ⟨?_, fun line => by rw [short, replaced]⟩
  rw [short]
  exact longest.before_shorten paired.of_append closed

theorem not_mem_of_inWord {text : List Char} (kept : ∀ c ∈ text, inWord c = true) :
    '\r' ∉ text := by
  intro member
  have noPart : inWord '\r' = false := by decide
  rw [kept _ member] at noPart
  cases noPart

/-- A string survives: its closing quote keeps both the lexeme and the body from ending in
a CR. -/
theorem survives_string {body after : List Char} (unquoted : '"' ∉ body)
    (paired : Paired ('"' :: body ++ ['"'] ++ after)) :
    Piece.Survives ⟨'"' :: body ++ ['"'], .token .string (.string (String.ofList body))⟩ after := by
  have lexeme : Paired ('"' :: body ++ ['"']) := by
    refine paired.left (.inl ?_)
    rw [List.getLast?_concat]
    decide
  have inside : Paired body := lexeme.tail.left (.inr (by decide))
  have text : shorten ('"' :: body ++ ['"']) = '"' :: shorten body ++ ['"'] := by
    rw [shorten_append, shorten_cons_of_ne (by decide)]
    rfl
  have value : Literal.mapText shorten (.string (String.ofList body)) =
      .string (String.ofList (shorten body)) := by
    rw [Literal.mapText, String.toList_ofList]
  have sameValue : Literal.mapText replace (.string (String.ofList body)) =
      .string (String.ofList (shorten body)) := by
    rw [Literal.mapText, String.toList_ofList, replace_eq_shorten inside]
  constructor
  · rw [Piece.mapText, Segment.Outcome.mapText, text, value]
    exact .string (not_mem_shorten unquoted)
  · intro line
    simp only [Piece.mapText, Segment.Outcome.mapText, replace_eq_shorten lexeme, value, sameValue]

/-- **A piece without its CRs.**  It survives, unless it was nothing but a CR. -/
theorem Longest.isReturn_or_survives {piece : Piece} {after : List Char}
    (longest : Longest piece after) (paired : Paired (piece.text ++ after)) :
    piece = ⟨['\r'], .nothing⟩ ∨ piece.Survives after := by
  cases longest with
  | mark listed =>
      have known : ∀ entry ∈ marks, '\r' ∉ [entry.1] := by decide
      exact .inr ((Longest.mark listed).survives paired (known _ listed) (fun _ => rfl) (by simp))
  | operator listed stops =>
      have known : ∀ entry ∈ operators, '\r' ∉ [entry.1] := by decide
      exact .inr ((Longest.operator listed stops).survives paired (known _ listed) (fun _ => rfl)
        (by simp))
  | operatorEqual listed =>
      have known : ∀ entry ∈ operators, '\r' ∉ [entry.1, '='] := by decide
      exact .inr ((Longest.operatorEqual listed).survives paired (known _ listed) (fun _ => rfl)
        (by simp))
  | slash stops =>
      exact .inr ((Longest.slash stops).survives paired (by decide) (fun _ => rfl) (by simp))
  | @comment body _ sameLine stops =>
      refine .inr ⟨?_, fun _ => rfl⟩
      rw [Piece.mapText, shorten_cons_of_ne (by decide), shorten_cons_of_ne (by decide)]
      exact .comment (not_mem_shorten sameLine) (stops.before_shorten paired.of_append rfl)
  | @space c _ listed =>
      by_cases isReturn : c = '\r'
      · exact .inl (by rw [isReturn])
      · have absent : '\r' ∉ [c] := by simpa using fun same => isReturn same.symm
        exact .inr ((Longest.space listed).survives paired absent (fun _ => rfl) (by simp))
  | string unquoted => exact .inr (survives_string unquoted paired)
  | @unterminated body unquoted =>
      refine .inr ⟨?_, fun _ => rfl⟩
      rw [Piece.mapText, shorten_cons_of_ne (by decide)]
      exact .unterminated (not_mem_shorten unquoted)
  | integer nonempty kept stops noFraction =>
      have absent := not_mem_of_inWord fun d member => inWord_of_isDigit (kept d member)
      exact .inr ((Longest.integer nonempty kept stops noFraction).survives paired absent
        (fun _ => rfl) (by simp))
  | @decimal whole fraction _ nonempty wholeKept fractionNonempty fractionKept stops =>
      have absent : '\r' ∉ whole ++ '.' :: fraction := by
        have left := not_mem_of_inWord fun d member => inWord_of_isDigit (wholeKept d member)
        have right := not_mem_of_inWord fun d member => inWord_of_isDigit (fractionKept d member)
        simp [left, right]
      have longest := Longest.decimal nonempty wholeKept fractionNonempty fractionKept stops
      exact .inr (longest.survives paired absent (fun _ => rfl) (by simp))
  | @keyword word _ stops =>
      have absent := not_mem_of_inWord (inWord_of_mem_spelling word)
      exact .inr ((Longest.keyword stops).survives paired absent (fun _ => rfl) (by simp))
  | @identifier c others _ start kept stops unreserved =>
      have absent := not_mem_of_inWord (inWord_of_start start kept)
      exact .inr ((Longest.identifier start kept stops unreserved).survives paired absent
        (fun _ => rfl) (by simp))
  | @stray c _ foreign unlisted =>
      have absent : '\r' ∉ [c] := by
        simpa using (ne_of_not_mem_signs unlisted (by decide : '\r' ∈ signs)).symm
      have other : Report.unexpectedCharacter ≠ Report.unterminatedString := by decide
      refine .inr ((Longest.stray foreign unlisted).survives paired absent (fun _ => rfl) ?_)
      exact fun same => other (Segment.Outcome.complaint.inj same)

/-! ## Whole texts -/

@[simp] theorem lineAfter_shorten (text : List Char) :
    lineAfter (shorten text) = lineAfter text := by
  rw [lineAfter, lineAfter, count_newline_shorten]

/-- A text without its CRs has the pieces that survive, which yield the same. -/
theorem cutting_shorten {text : List Char} {pieces : List Piece} (cutting : Cutting text pieces)
    (paired : Paired text) :
    ∃ others, Cutting (shorten text) others ∧ ∀ before,
      finds (shorten before) others =
        (finds before pieces).map (Find.mapText replace) := by
  induction cutting with
  | nil => exact ⟨[], .nil, fun _ => rfl⟩
  | @cons piece after pieces longest _ ih =>
      obtain ⟨others, whole, same⟩ := ih paired.of_append
      rcases longest.isReturn_or_survives paired with rfl | ⟨again, yields⟩
      · refine ⟨others, whole, fun before => ?_⟩
        rw [finds, List.map_append, ← same, shorten_append]
        simp [Piece.find?, shorten]
      · refine ⟨piece.mapText shorten :: others, ?_, fun before => ?_⟩
        · rw [shorten_append]
          exact .cons again whole
        · have ends : shorten before ++ (piece.mapText shorten).text =
              shorten (before ++ piece.text) := (shorten_append before piece.text).symm
          rw [finds, finds, ends, same, lineAfter_shorten, yields, Piece.find?_mapText,
            List.map_append, Option.toList_map]

theorem diagnostics_ofText_of_cutting {text : List Char} {pieces : List Piece}
    (cutting : Cutting text pieces) (filename : String) :
    (Scan.ofText filename (String.ofList text)).diagnostics =
      ((finds [] pieces).filterMap Find.report?).map Report.diagnostic := by
  simp only [Scan.ofText, Scan.ofLexer, String.toList_ofList, sink_run_of_cutting cutting]
  rw [Collector.toList_reportAll]
  rfl

/-- **A text and the text without its CRs** have the same diagnostics and, with each CR LF
as LF, the same tokens. -/
theorem scan_shorten {text : List Char} (paired : Paired text) (filename other : String) :
    (Scan.ofText filename (String.ofList (shorten text))).tokens =
        (Scan.ofText other (String.ofList text)).tokens.map (Token.mapText replace) ∧
      (Scan.ofText filename (String.ofList (shorten text))).diagnostics =
        (Scan.ofText other (String.ofList text)).diagnostics := by
  have cutting := cutting_segments text
  obtain ⟨others, short, same⟩ := cutting_shorten cutting paired
  have found : finds [] others = _ := same []
  constructor
  · simp only [Scan.ofText, Scan.ofLexer, String.toList_ofList, tokens_run_of_cutting short,
      tokens_run_of_cutting cutting]
    rw [found, filterMap_token?_mapText, lineAfter_shorten, List.map_append, List.map_singleton,
      Token.mapText_endOfInput replace rfl]
  · rw [diagnostics_ofText_of_cutting short, diagnostics_ofText_of_cutting cutting, found,
      filterMap_report?_mapText]

/-! ## Files -/

/-- A file that holds the bytes of a text is read as that text with its line ends unified. -/
theorem text_of_read {tree : FileTree} {path : Path} {text : String}
    (addressable : path.isAddressable = true) (held : tree.read path = .ok (bytesOfText text)) :
    tree.text path = .ok (String.ofList (unify text.toList)) := by
  rw [FileTree.text, if_pos addressable, held]
  simp only [textOfBytes, bytesOfText, Text.Utf8.decode_encode]
  rfl

/-- **A file with CR LF line ends scans like its text.**  If each CR of a text has an LF
after it and a file holds the bytes of the text, then the scan of the file has the tokens
of the text, with each CR LF in a lexeme or string value as LF, on the same lines, and the
same diagnostics.  Without any CR the tokens are the same outright. -/
theorem ofFile_of_crlf {tree : FileTree} {path : Path} {text : String}
    (addressable : path.isAddressable = true) (held : tree.read path = .ok (bytesOfText text))
    (paired : Paired text.toList) (filename : String) :
    ∃ scan, (Scan.ofFile path false : StateM FileTree _) tree = (.ok scan, tree) ∧
      scan.tokens = (Scan.ofText filename text).tokens.map (Token.mapText replace) ∧
      scan.diagnostics = (Scan.ofText filename text).diagnostics ∧
      ('\r' ∉ text.toList → scan.tokens = (Scan.ofText filename text).tokens) := by
  have read := text_of_read addressable held
  obtain ⟨tokens, diagnostics⟩ := scan_shorten paired path.text filename
  rw [String.ofList_toList] at tokens diagnostics
  refine ⟨Scan.ofText path.text (String.ofList (shorten text.toList)), ?_, tokens, diagnostics, ?_⟩
  · rw [Scan.run_ofFile, read, unify_eq_shorten paired]
    rfl
  · intro absent
    rw [shorten_of_not_mem absent, String.ofList_toList]
    rfl

/-- A string over two lines, a comment and a number, each before a CR LF but the last. -/
theorem ofFile_of_crlf_in_string :
    let text := "\"a\r\nb\"\r\n// c\r\n1"
    let path := Path.ofText "a.lox"
    let tree : FileTree := ⟨[(["a.lox"], .file (bytesOfText text))], []⟩
    path.isAddressable = true ∧ tree.read path = .ok (bytesOfText text) ∧ Paired text.toList ∧
      ∃ scan, (Scan.ofFile path false : StateM FileTree _) tree = (.ok scan, tree) ∧
        scan.tokens =
          [⟨.string, "\"a\nb\"", .string "a\nb", 2⟩,
           ⟨.number, "1", .number (Numeral.Binary64.ofNumeral ['1']), 4⟩, .endOfInput 4] ∧
        scan.diagnostics = [] := by
  intro text path tree
  have addressable : path.isAddressable = true := by decide
  have held : tree.read path = .ok (bytesOfText text) := by rfl
  have paired : Paired text.toList := by decide
  obtain ⟨scan, read, tokens, diagnostics, -⟩ :=
    ofFile_of_crlf addressable held paired Scan.unnamed
  refine ⟨addressable, held, paired, scan, read, ?_, ?_⟩
  · rw [tokens]
    decide +kernel
  · rw [diagnostics]
    decide +kernel

end LoxLexer
