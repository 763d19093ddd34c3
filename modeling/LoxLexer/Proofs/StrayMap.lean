/-
# LoxLexer.Proofs.StrayMap -- a lexer cannot tell strays apart

A stray is a character that the language has no use for outside strings and comments.  A
`StrayMap` sends strays to strays and leaves every other character as it is.  The main
statement, `run_map_strays`, is that a text changed by such a map has the same tokens, with
the map applied to lexemes and strings, and the very same reports.  So any stray may stand
for any other wherever it occurs, in code, in comments and strings, behind a number or at
the end, and U+0000 is one of them, although it is also what a lexer sees past the end.

The proof goes rule by rule (`Longest.map_strays`): every class of characters that a rule
asks for is left as it is, in both directions.
-/
import LoxLexer.Proofs.ChangedText

namespace LoxLexer

set_option autoImplicit false

/-! ## Strays -/

/-- A character that the language has no use for outside strings and comments. -/
def IsStray (c : Char) : Prop := inWord c = false ∧ c ∉ signs

instance (c : Char) : Decidable (IsStray c) := inferInstanceAs (Decidable (_ ∧ _))

/-- A map that moves strays only, and only among themselves. -/
structure StrayMap (f : Char → Char) : Prop where
  others : ∀ c, ¬ IsStray c → f c = c
  strays : ∀ c, IsStray c → IsStray (f c)

theorem not_isStray_of_inWord {c : Char} (part : inWord c = true) : ¬ IsStray c := by
  rintro ⟨foreign, -⟩
  simp [part] at foreign

theorem not_isStray_of_mem_signs {c : Char} (known : c ∈ signs) : ¬ IsStray c :=
  fun stray => stray.2 known

namespace StrayMap

variable {f : Char → Char} (moves : StrayMap f)

include moves

/-- Nothing but the character itself is moved to one that is no stray. -/
theorem apply_eq_iff {d : Char} (known : ¬ IsStray d) (c : Char) : f c = d ↔ c = d := by
  by_cases stray : IsStray c
  · constructor
    · rintro rfl
      exact absurd (moves.strays c stray) known
    · rintro rfl
      exact absurd stray known
  · rw [moves.others c stray]

/-- A class of characters that are no strays is respected. -/
theorem apply_class {among : Char → Bool} (known : ∀ d, among d = true → ¬ IsStray d)
    (c : Char) : among (f c) = among c := by
  by_cases stray : IsStray c
  · have outside (d : Char) (moved : IsStray d) : among d = false := by
      rw [← Bool.not_eq_true]
      exact fun inside => known d inside moved
    rw [outside c stray, outside (f c) (moves.strays c stray)]
  · rw [moves.others c stray]

theorem isDigit_apply (c : Char) : (f c).isDigit = c.isDigit :=
  moves.apply_class (fun _ digit => not_isStray_of_inWord (inWord_of_isDigit digit)) c

theorem inWord_apply (c : Char) : inWord (f c) = inWord c :=
  moves.apply_class (fun _ part => not_isStray_of_inWord part) c

/-- A sign is met just where it was. -/
theorem mem_map_iff {d : Char} (known : d ∈ signs) (text : List Char) :
    d ∈ text.map f ↔ d ∈ text := by
  simp [List.mem_map, moves.apply_eq_iff (not_isStray_of_mem_signs known)]

theorem map_eq_self {text : List Char} (known : ∀ c ∈ text, ¬ IsStray c) : text.map f = text := by
  rw [List.map_congr_left fun c member => moves.others c (known c member), List.map_id']

theorem count_newline_map (text : List Char) : (text.map f).count '\n' = text.count '\n' := by
  have same (c : Char) : f c = '\n' ↔ c = '\n' :=
    moves.apply_eq_iff (not_isStray_of_mem_signs (by decide)) c
  induction text with
  | nil => rfl
  | cons c rest ih => simp [List.count_cons, ih, same]

theorem lineAfter_map (text : List Char) : lineAfter (text.map f) = lineAfter text := by
  rw [lineAfter, lineAfter, moves.count_newline_map]

end StrayMap

/-! ## Pieces -/

/-- What a text did not go on with, the changed text does not go on with either. -/
theorem NoMore.map {among : Char → Bool} {f : Char → Char} {after : List Char}
    (stops : NoMore among after) (respected : ∀ c, among (f c) = among c) :
    NoMore among (after.map f) := by
  intro c member
  rw [List.head?_map, Option.mem_def, Option.map_eq_some_iff] at member
  obtain ⟨d, start, rfl⟩ := member
  rw [respected, stops d start]

section

variable {f : Char → Char} (moves : StrayMap f)

include moves

/-- Whatever is made of no strays, and yields no text but its lexeme, is left as it is. -/
theorem Piece.mapText_eq_self {text : List Char} {outcome : Segment.Outcome}
    (known : ∀ c ∈ text, ¬ IsStray c) (plain : outcome.mapText (List.map f) = outcome) :
    Piece.mapText (List.map f) ⟨text, outcome⟩ = ⟨text, outcome⟩ := by
  rw [Piece.mapText, plain, moves.map_eq_self known]

/-- **A piece and its image** are taken by the same rule. -/
theorem Longest.map_strays {piece : Piece} {after : List Char} (longest : Longest piece after) :
    Longest (piece.mapText (List.map f)) (after.map f) := by
  have sign (d : Char) (known : d ∈ signs) (c : Char) : f c = d ↔ c = d :=
    moves.apply_eq_iff (not_isStray_of_mem_signs known) c
  have fixed {d : Char} (known : d ∈ signs) : f d = d := (sign d known d).mpr rfl
  have digits {text : List Char} (kept : ∀ d ∈ text, d.isDigit = true) :
      ∀ d ∈ text, ¬ IsStray d := by
    intro d member
    exact not_isStray_of_inWord (inWord_of_isDigit (kept d member))
  cases longest with
  | @mark c kind _ listed =>
      have single : ∀ d ∈ [c], ¬ IsStray d := by
        simpa using not_isStray_of_mem_signs (mem_signs_of_mem_marks listed)
      rw [Piece.mapText_eq_self moves single rfl]
      exact .mark listed
  | @operator c bare withEqual _ listed stops =>
      have single : ∀ d ∈ [c], ¬ IsStray d := by
        simpa using not_isStray_of_mem_signs (mem_signs_of_mem_operators listed)
      rw [Piece.mapText_eq_self moves single rfl]
      exact .operator listed (stops.map fun d => by simp [sign '=' (by decide)])
  | @operatorEqual c bare withEqual _ listed =>
      have both : ∀ d ∈ [c, '='], ¬ IsStray d := by
        simpa using ⟨not_isStray_of_mem_signs (mem_signs_of_mem_operators listed),
          not_isStray_of_mem_signs (by decide : '=' ∈ signs)⟩
      rw [Piece.mapText_eq_self moves both rfl]
      exact .operatorEqual listed
  | slash stops =>
      have single : ∀ d ∈ ['/'], ¬ IsStray d := by
        simpa using not_isStray_of_mem_signs (by decide : '/' ∈ signs)
      rw [Piece.mapText_eq_self moves single rfl]
      exact .slash (stops.map fun d => by simp [sign '/' (by decide)])
  | @comment body _ sameLine stops =>
      have text : ('/' :: '/' :: body).map f = '/' :: '/' :: body.map f := by
        simp [fixed (by decide : '/' ∈ signs)]
      rw [Piece.mapText, text]
      refine .comment ?_ (stops.map fun d => by simp [sign '\n' (by decide)])
      rwa [moves.mem_map_iff (by decide)]
  | @space c _ listed =>
      have known : ∀ d ∈ [' ', '\r', '\t', '\n'], d ∈ signs := by simp [signs]
      have single : ∀ d ∈ [c], ¬ IsStray d := by
        simpa using not_isStray_of_mem_signs (known c listed)
      rw [Piece.mapText_eq_self moves single rfl]
      exact .space listed
  | @string body _ unquoted =>
      have text : ('"' :: body ++ ['"']).map f = '"' :: body.map f ++ ['"'] := by
        simp [fixed (by decide : '"' ∈ signs)]
      have value : Literal.mapText (List.map f) (.string (String.ofList body)) =
          .string (String.ofList (body.map f)) := by
        rw [Literal.mapText, String.toList_ofList]
      rw [Piece.mapText, Segment.Outcome.mapText, text, value]
      refine .string ?_
      rwa [moves.mem_map_iff (by decide)]
  | @unterminated body unquoted =>
      have text : ('"' :: body).map f = '"' :: body.map f := by
        simp [fixed (by decide : '"' ∈ signs)]
      rw [Piece.mapText, text]
      refine .unterminated ?_
      rwa [moves.mem_map_iff (by decide)]
  | @integer text after nonempty kept stops noFraction =>
      rw [Piece.mapText_eq_self moves (digits kept) rfl]
      refine .integer nonempty kept (stops.map moves.isDigit_apply) fun d rest same => ?_
      rcases after with _ | ⟨p, _ | ⟨e, others⟩⟩
      · simp at same
      · simp at same
      · obtain ⟨point, rfl, -⟩ : f p = '.' ∧ f e = d ∧ others.map f = rest := by
          simpa using same
        rw [sign '.' (by decide)] at point
        rw [moves.isDigit_apply]
        exact noFraction e others (by rw [point])
  | @decimal whole fraction _ nonempty wholeKept fractionNonempty fractionKept stops =>
      have known : ∀ d ∈ whole ++ '.' :: fraction, ¬ IsStray d := by
        intro d member
        rw [List.mem_append, List.mem_cons] at member
        rcases member with left | rfl | right
        · exact digits wholeKept d left
        · decide
        · exact digits fractionKept d right
      rw [Piece.mapText_eq_self moves known rfl]
      exact .decimal nonempty wholeKept fractionNonempty fractionKept
        (stops.map moves.isDigit_apply)
  | @keyword word _ stops =>
      have known : ∀ d ∈ word.spelling.toList, ¬ IsStray d := by
        intro d member
        exact not_isStray_of_inWord (inWord_of_mem_spelling word d member)
      rw [Piece.mapText_eq_self moves known rfl]
      exact .keyword (stops.map moves.inWord_apply)
  | @identifier c others _ start kept stops unreserved =>
      have known : ∀ d ∈ c :: others, ¬ IsStray d := by
        intro d member
        exact not_isStray_of_inWord (inWord_of_start start kept d member)
      rw [Piece.mapText_eq_self moves known rfl]
      exact .identifier start kept (stops.map moves.inWord_apply) unreserved
  | @stray c _ foreign unlisted =>
      obtain ⟨stillForeign, stillUnlisted⟩ := moves.strays c ⟨foreign, unlisted⟩
      exact .stray stillForeign stillUnlisted

/-! ## Whole texts -/

theorem Cutting.map_strays {text : List Char} {pieces : List Piece}
    (cutting : Cutting text pieces) :
    Cutting (text.map f) (pieces.map (Piece.mapText (List.map f))) := by
  induction cutting with
  | nil => exact .nil
  | @cons piece after pieces longest _ ih =>
      rw [List.map_append, List.map_cons]
      exact .cons (longest.map_strays moves) ih

/-- The pieces yield what they yielded, on the same lines. -/
theorem finds_map_strays (before : List Char) (pieces : List Piece) :
    finds (before.map f) (pieces.map (Piece.mapText (List.map f))) =
      (finds before pieces).map (Find.mapText (List.map f)) := by
  induction pieces generalizing before with
  | nil => rfl
  | cons piece rest ih =>
      have ends : before.map f ++ (piece.mapText (List.map f)).text =
          (before ++ piece.text).map f := by
        rw [List.map_append]
        rfl
      rw [List.map_cons, finds, finds, ends, moves.lineAfter_map, Piece.find?_mapText, ih,
        List.map_append, Option.toList_map]

variable {Sink : Type} [ReportSink Sink]

/-- The tokens of a text whose strays are moved are those of the text, with the strays in
their lexemes and strings moved, and its reports are the same. -/
theorem run_map (sink : Sink) (text : List Char) :
    (Lexer.ofText (text.map f) sink).run.tokens.toList =
        (Lexer.ofText text sink).run.tokens.toList.map (Token.mapText (List.map f)) ∧
      (Lexer.ofText (text.map f) sink).run.sink = (Lexer.ofText text sink).run.sink ∧
      (Lexer.ofText (text.map f) sink).run.complaints =
        (Lexer.ofText text sink).run.complaints := by
  have cutting := cutting_segments text
  have image := cutting.map_strays moves
  have found : finds [] (((segments text).map Segment.piece).map (Piece.mapText (List.map f))) =
      _ := finds_map_strays moves [] _
  refine ⟨?_, ?_, ?_⟩
  · rw [tokens_run_of_cutting image, tokens_run_of_cutting cutting, found,
      filterMap_token?_mapText, moves.lineAfter_map, List.map_append, List.map_singleton,
      Token.mapText_endOfInput _ rfl]
  · rw [sink_run_of_cutting image, sink_run_of_cutting cutting, found, filterMap_report?_mapText]
  · rw [complaints_run_of_cutting image, complaints_run_of_cutting cutting, found,
      filterMap_report?_mapText]

end

/-! ## One stray for another -/

/-- Any stray as `@`. -/
def veil (c : Char) : Char := if IsStray c then '@' else c

theorem strayMap_veil : StrayMap veil where
  others c known := if_neg known
  strays c stray := by
    rw [veil, if_pos stray]
    decide

variable {Sink : Type} [ReportSink Sink]

/-- **A lexer cannot tell strays apart.**  Strays can be moved among themselves: the tokens
of the text keep their kinds, lines and numbers, their lexemes and strings have the strays
moved, and the reports stay.  And any one stray of a text can be an `@` instead: but for
that character in lexemes and strings the tokens stay, and the reports stay. -/
theorem run_map_strays (sink : Sink) {f : Char → Char} (moves : StrayMap f) :
    (∀ text : List Char,
      let plain := (Lexer.ofText text sink).run
      let moved := (Lexer.ofText (text.map f) sink).run
      moved.tokens.toList = plain.tokens.toList.map (Token.mapText (List.map f)) ∧
        moved.sink = plain.sink ∧ moved.complaints = plain.complaints) ∧
    (∀ (before after : List Char) (c : Char), IsStray c →
      let there := (Lexer.ofText (before ++ c :: after) sink).run
      let veiled := (Lexer.ofText (before ++ '@' :: after) sink).run
      veiled.tokens.toList.map (Token.mapText (List.map veil)) =
          there.tokens.toList.map (Token.mapText (List.map veil)) ∧
        veiled.sink = there.sink ∧ veiled.complaints = there.complaints) := by
  refine ⟨fun text => run_map moves sink text, ?_⟩
  intro before after c stray there veiled
  -- Both texts are the same with all their strays veiled.
  have same : (before ++ '@' :: after).map veil = (before ++ c :: after).map veil := by
    have at_ : veil '@' = '@' := by decide
    simp [at_, show veil c = '@' from if_pos stray]
  obtain ⟨thereTokens, thereSink, thereCount⟩ := run_map strayMap_veil sink (before ++ c :: after)
  obtain ⟨veiledTokens, veiledSink, veiledCount⟩ :=
    run_map strayMap_veil sink (before ++ '@' :: after)
  rw [same] at veiledTokens veiledSink veiledCount
  exact ⟨veiledTokens.symm.trans thereTokens, veiledSink.symm.trans thereSink,
    veiledCount.symm.trans thereCount⟩

/-- U+0000 as an accented letter: behind a point, in a comment, in a string and at the end. -/
theorem run_map_strays_of_null :
    let f : Char → Char := fun c => if c = '\x00' then 'é' else c
    let text := "1.\x00//\x00\n\"\x00\"\x00".toList
    let moved := (Lexer.ofText (text.map f) Recorder.empty).run
    let veiled := (Lexer.ofText ("1.".toList ++ '@' :: text.drop 3) Recorder.empty).run
    StrayMap f ∧ IsStray '\x00' ∧
      moved.tokens.toList =
        [⟨.number, "1", .number (Numeral.Binary64.ofNumeral ['1']), 1⟩, ⟨.dot, ".", .none, 1⟩,
         ⟨.string, "\"é\"", .string "é", 2⟩, .endOfInput 2] ∧
      moved.sink.reports.toList =
        [⟨1, Report.unexpectedCharacter⟩, ⟨2, Report.unexpectedCharacter⟩] ∧
      veiled.sink.reports.toList =
        [⟨1, Report.unexpectedCharacter⟩, ⟨2, Report.unexpectedCharacter⟩] := by
  intro f text moved veiled
  have stray : IsStray '\x00' := by decide
  have moves : StrayMap f := by
    constructor
    · intro c known
      have other : c ≠ '\x00' := by
        rintro rfl
        exact known stray
      simp [f, other]
    · intro c _
      by_cases null : c = '\x00'
      · simp only [f, null, if_true]
        decide
      · simpa [f, null]
  obtain ⟨whole, one⟩ := run_map_strays Recorder.empty moves
  obtain ⟨tokens, sink, -⟩ := whole text
  obtain ⟨-, veiledSink, -⟩ := one "1.".toList (text.drop 3) '\x00' stray
  have reports : (Lexer.ofText text Recorder.empty).run.sink.reports.toList =
      [⟨1, Report.unexpectedCharacter⟩, ⟨2, Report.unexpectedCharacter⟩] := by
    decide +kernel
  refine ⟨moves, stray, ?_, ?_, ?_⟩
  · rw [tokens]
    decide +kernel
  · rw [sink, reports]
  · rw [veiledSink]
    exact reports

end LoxLexer
