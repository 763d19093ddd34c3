/-
# LoxLexer.Proofs.JsonRoundTrip -- a printed scan reads back

The marks of a printed value are put together to the value again: what a value's marks do
to the open frames is what giving the value does (`foldlM_marks`).  So a printed value reads
back whatever its indent (`read?_print`).

A word is read by its looks, so the looks must tell the values apart.  An integer is written
as a run of digits, a double never is, and no number has the name of another value
(`ofWord?_integer`, `ofWord?_double`).

A scan's members are found by their names, and a diagnostic without a line has no member for
it, so nothing of a scan is lost: `lossless_print`.
-/
import LoxLexer.Proofs.JsonText

namespace LoxLexer

set_option autoImplicit false

namespace Json

open Numeral (Binary64 Layout)

/-! ## Words -/

/-- A written integer is a run of digits with an optional sign. -/
@[simp] theorem exponent?_printInteger (value : Int) :
    Binary64.exponent? (printInteger value) = some value := by
  cases value with
  | ofNat value =>
      have digits : ∀ c ∈ Nat.toDigits 10 value, c.isDigit = true :=
        Numeral.isDigit_of_mem_toDigits
      have size : Nat.ofDigitChars 10 (Nat.toDigits 10 value) 0 = value :=
        Nat.ofDigitChars_ten_toDigits
      have named : Nat.toDigits 10 value ≠ [] := Nat.toDigits_ne_nil
      obtain ⟨c, rest, written⟩ := List.exists_cons_of_ne_nil named
      show Binary64.exponent? (Nat.toDigits 10 value) = _
      rw [written] at digits size ⊢
      rw [Binary64.exponent?_of_head (digits c List.mem_cons_self),
        if_pos (List.all_eq_true.mpr digits), size]
      rfl
  | negSucc value =>
      have read := Binary64.exponent?_written (.negSucc value) 0
      rwa [if_pos (Int.negSucc_lt_zero value)] at read

@[simp] theorem exponent?_double (value : Binary64) :
    Binary64.exponent? (doubles.write value) = none := by
  cases value with
  | nan => decide +kernel
  | infinite negative => cases negative <;> decide +kernel
  | finite negative rank =>
      obtain ⟨text, written, looks, -⟩ := Layout.write_finite doubles negative rank
      rw [written, Layout.exponent?_of_looksDecimal negative looks]

theorem legible_doubles : doubles.Legible where
  infinity negative := by cases negative <;> decide +kernel
  notANumber := by decide +kernel

/-- The names of the values that are no numbers. -/
def names : List (List Char) :=
  [['n', 'u', 'l', 'l'], ['t', 'r', 'u', 'e'], ['f', 'a', 'l', 's', 'e']]

/-- A word that is none of the names is read as a number. -/
theorem ofWord?_of_notMem {text : List Char} (other : text ∉ names) :
    ofWord? text =
      match Binary64.exponent? text with
      | some value => some (.integer value)
      | none => (Binary64.read? text).map .double := by
  simp only [names, List.mem_cons, List.not_mem_nil, or_false, not_or] at other
  obtain ⟨notNull, notTrue, notFalse⟩ := other
  rw [ofWord?, if_neg notNull, if_neg notTrue]
  exact if_neg notFalse

@[simp] theorem ofWord?_integer (value : Int) :
    ofWord? (printInteger value) = some (.integer value) := by
  have read := exponent?_printInteger value
  rw [ofWord?_of_notMem, read]
  intro named
  have none : ∀ name ∈ names, Binary64.exponent? name = none := by decide
  rw [none _ named] at read
  cases read

@[simp] theorem ofWord?_double (value : Binary64) :
    ofWord? (doubles.write value) = some (.double value) := by
  have read := Layout.read?_write legible_doubles value
  rw [ofWord?_of_notMem, exponent?_double, read]
  · rfl
  intro named
  have none : ∀ name ∈ names, Binary64.read? name = none := by decide +kernel
  rw [none _ named] at read
  cases read

/-! ## Frames -/

/-- Whether a value may come next in a frame: not where a name is due. -/
def Frame.Takes : Frame → Prop
  | .object _ => False
  | _ => True

theorem foldlM_word {text : List Char} {value : Json} (read : ofWord? text = some value)
    (frames : List Frame) : [Mark.word text].foldlM place frames = give value frames := by
  show (ofWord? text).bind (give · frames) >>= pure = _
  rw [read, bind_pure]
  rfl

mutual

/-- A value's marks give the value. -/
theorem foldlM_marks : ∀ (value : Json) (frame : Frame) (outer : List Frame), frame.Takes →
    (marks value).foldlM place (frame :: outer) = give value (frame :: outer)
  | .null, _, _, _ => foldlM_word rfl _
  | .bool true, _, _, _ => foldlM_word rfl _
  | .bool false, _, _, _ => foldlM_word rfl _
  | .integer value, _, _, _ => foldlM_word (ofWord?_integer value) _
  | .double value, _, _, _ => foldlM_word (ofWord?_double value) _
  | .string text, frame, outer, takes => by
      cases frame with
      | array items => rfl
      | object members => exact takes.elim
      | member members name => rfl
  | .array items, frame, outer, _ => by
      show (itemMarks items ++ [Mark.closeArray]).foldlM place (.array [] :: frame :: outer) = _
      rw [List.foldlM_append, foldlM_itemMarks items [] (frame :: outer), List.append_nil]
      show give (.array items.reverse.reverse) (frame :: outer) >>= pure = _
      rw [List.reverse_reverse, bind_pure]
  | .object members, frame, outer, _ => by
      show (memberMarks members ++ [Mark.closeObject]).foldlM place
        (.object [] :: frame :: outer) = _
      rw [List.foldlM_append, foldlM_memberMarks members [] (frame :: outer), List.append_nil]
      show give (.object members.reverse.reverse) (frame :: outer) >>= pure = _
      rw [List.reverse_reverse, bind_pure]

theorem foldlM_itemMarks : ∀ (items done : List Json) (outer : List Frame),
    (itemMarks items).foldlM place (.array done :: outer) =
      some (.array (items.reverse ++ done) :: outer)
  | [], _, _ => rfl
  | item :: items, done, outer => by
      rw [itemMarks, List.foldlM_append, foldlM_marks item (.array done) outer trivial]
      show (itemMarks items).foldlM place (.array (item :: done) :: outer) = _
      rw [foldlM_itemMarks items (item :: done) outer, List.reverse_cons, List.append_assoc]
      rfl

theorem foldlM_memberMarks : ∀ (members done : List (String × Json)) (outer : List Frame),
    (memberMarks members).foldlM place (.object done :: outer) =
      some (.object (members.reverse ++ done) :: outer)
  | [], _, _ => rfl
  | (name, value) :: members, done, outer => by
      rw [memberMarks, List.foldlM_cons]
      show (marks value ++ memberMarks members).foldlM place (.member done name :: outer) = _
      rw [List.foldlM_append, foldlM_marks value (.member done name) outer trivial]
      show (memberMarks members).foldlM place (.object ((name, value) :: done) :: outer) = _
      rw [foldlM_memberMarks members ((name, value) :: done) outer, List.reverse_cons,
        List.append_assoc]
      rfl

end

/-- **A printed value reads back**, whatever its indent. -/
@[simp] theorem read?_print (value : Json) (indent : Option Int) :
    read? (value.print indent) = some value := by
  have cut : marksFrom .between [] (value.print indent).toList = some (marks value) := by
    rw [print, String.toList_ofList]
    exact (cuts_printAt indent 0 value).whole
  have built := foldlM_marks value (.array []) [] trivial
  rw [read?, cut, Option.bind_some, ofMarks?, built]
  rfl

end Json

/-! ## Tokens, diagnostics and scans -/

@[simp] theorem Literal.ofJson?_toJson (literal : Literal) :
    ofJson? literal.toJson = some literal := by
  cases literal <;> rfl

@[simp] theorem Token.ofJson?_toJson (token : Token) : ofJson? token.toJson = some token := by
  simp [Token.ofJson?, Token.toJson, Json.member?, Json.text?, Json.whole?, List.lookup_cons]

@[simp] theorem Diagnostic.ofJson?_toJson (diagnostic : Diagnostic) :
    ofJson? diagnostic.toJson = some diagnostic := by
  obtain ⟨code, message, line, hint⟩ := diagnostic
  cases line with
  | none =>
      simp [Diagnostic.ofJson?, Diagnostic.toJson, Diagnostic.lineMember, Json.member?, Json.text?,
        List.lookup_cons, List.lookup_nil]
  | some line =>
      simp [Diagnostic.ofJson?, Diagnostic.toJson, Diagnostic.lineMember, Json.member?, Json.text?,
        Json.whole?, List.lookup_cons]

/-- What reads one thing back reads a list of them back. -/
theorem mapM_map_of_inverse {Thing Written : Type} {write : Thing → Written}
    {read : Written → Option Thing} (inverse : ∀ thing, read (write thing) = some thing)
    (things : List Thing) : (things.map write).mapM read = some things := by
  induction things with
  | nil => rfl
  | cons thing things ih =>
      rw [List.map_cons, List.mapM_cons, inverse, ih]
      rfl

theorem Scan.ofJson?_toJson (scan : Scan) : ofJson? scan.toJson = some (scan, scan.ok) := by
  have tokens := mapM_map_of_inverse Token.ofJson?_toJson scan.tokens
  have diagnostics := mapM_map_of_inverse Diagnostic.ofJson?_toJson scan.diagnostics
  simp [Scan.ofJson?, Scan.toJson, tokensJson, Json.member?, Json.text?, Json.truth?,
    Json.items?, List.lookup_cons, tokens, diagnostics]

namespace Scan

/-- **A printed scan loses nothing.**  One reader takes the text of every scan, whatever its
indent, back to the scan and to whether it has diagnostics; so no two scans have one text,
not even under two indents.  The text is of printable ASCII, and of line ends where there is
an indent. -/
theorem lossless_print (scan : Scan) (indent : Option Int) :
    read? (scan.print indent) = some (scan, scan.ok) ∧
      (∀ (other : Scan) (otherIndent : Option Int),
        other.print otherIndent = scan.print indent → other = scan) ∧
      ∀ c ∈ (scan.print indent).toList, (' ' ≤ c ∧ c ≤ '~') ∨ c = '\n' ∧ indent ≠ none := by
  have reads (other : Scan) (otherIndent : Option Int) :
      read? (other.print otherIndent) = some (other, other.ok) := by
    rw [read?, Scan.print, Json.read?_print, Option.bind_some, ofJson?_toJson]
  refine ⟨reads scan indent, ?_, ?_⟩
  · intro other otherIndent same
    have both := reads other otherIndent
    rw [same, reads scan indent] at both
    exact (congrArg Prod.fst (Option.some.inj both)).symm
  · intro c member
    rw [Scan.print, Json.print, String.toList_ofList] at member
    exact Json.fits_printAt 0 scan.toJson c member

end Scan

end LoxLexer
