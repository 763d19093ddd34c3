/-
# LoxLexer.Proofs.Respelling -- a text written from its tokens

The tokens of a text are enough to write a text that has the same tokens: before each
lexeme as many line ends as lead from the line of the token before to the line on which
the lexeme starts, and a space (`respell`).  The spaces keep lexemes apart that would
otherwise grow together, and the line ends give each token its line back.

The main statement, `run_respell`, says so for every text, also one with complaints.  It
has two sides.  A token's line is that of its end, so the line ends inside a lexeme are
no part of the gap before it, and the gaps are never negative (`gaps_nonneg`).  And a
token that a text holds is read again wherever a space, a line end or the end of the
text follows it (`cutting_respell`).
-/
import LoxLexer.Proofs.Boundary

namespace LoxLexer

set_option autoImplicit false

/-! ## Writing tokens -/

namespace Token

/-- How many lines end between a token before, which ends on a line, and this one. -/
def gap (line : Int) (token : Token) : Int :=
  token.line - line - token.lexeme.toList.count '\n'

@[simp] theorem gap_endOfInput (line last : Int) : (endOfInput last).gap line = last - line :=
  Int.sub_zero _

/-- A token as it is written, after a space.  The end of input is not written. -/
def spelling (token : Token) : List Char :=
  if token.kind = .endOfInput then [] else ' ' :: token.lexeme.toList

@[simp] theorem spelling_endOfInput (line : Int) : (endOfInput line).spelling = [] := if_pos rfl

/-- Whether a token is what some piece yields. -/
def Legible (token : Token) : Prop :=
  ∃ after, Longest ⟨token.lexeme.toList, .token token.kind token.literal⟩ after

/-- Whether a text can have a token: what some piece yields, or the end of input. -/
def IsFound (token : Token) : Prop := token.Legible ∨ ∃ line, token = .endOfInput line

end Token

/-- The gaps before tokens, the first of which comes after a line. -/
def gaps (line : Int) : List Token → List Int
  | [] => []
  | token :: rest => token.gap line :: gaps token.line rest

/-- Writes tokens, the first of which comes after a line: before each the line ends of
its gap. -/
def respell (line : Int) : List Token → List Char
  | [] => []
  | token :: rest =>
      List.replicate (token.gap line).toNat '\n' ++ token.spelling ++ respell token.line rest

/-! ## Tokens of a text -/

/-- The tokens of a text are legible. -/
theorem legible_of_mem {text : List Char} {pieces : List Piece} (cutting : Cutting text pieces)
    {before : List Char} {token : Token}
    (member : token ∈ (finds before pieces).filterMap Find.token?) : token.Legible := by
  induction cutting generalizing before with
  | nil => simp [finds] at member
  | @cons piece after pieces longest _ ih =>
      rw [finds, List.filterMap_append, List.mem_append] at member
      rcases member with here | later
      · obtain ⟨text, outcome⟩ := piece
        cases outcome with
        | token kind literal =>
            have same : token =
                ⟨kind, String.ofList text, literal, lineAfter (before ++ text)⟩ := by
              simpa [Piece.find?, Find.token?] using here
            subst same
            exact ⟨after, by simpa using longest⟩
        | complaint message => simp [Piece.find?, Find.token?] at here
        | nothing => simp [Piece.find?] at here
      · exact ih later

/-- What a legible token denotes is told by its kind and its lexeme. -/
theorem Token.Legible.literal_eq {token : Token} (legible : token.Legible) :
    token.literal = token.kind.value token.lexeme.toList := by
  obtain ⟨after, longest⟩ := legible
  exact literal_eq_of_longest longest rfl

/-- **No gap is negative.**  A token ends at least as many lines below the one before it
as its lexeme has line ends. -/
theorem gaps_nonneg {before : List Char} {line : Int} (above : line ≤ lineAfter before)
    (pieces : List Piece) :
    ∀ gap ∈ gaps line ((finds before pieces).filterMap Find.token? ++
      [.endOfInput (lineAfter (before ++ pieces.flatMap Piece.text))]), 0 ≤ gap := by
  induction pieces generalizing before line with
  | nil =>
      have last : 0 ≤ (Token.endOfInput (lineAfter before)).gap line := by
        rw [Token.gap_endOfInput]
        omega
      simpa [finds, gaps] using last
  | cons piece rest ih =>
      have lines := lineAfter_append before piece.text
      rw [List.flatMap_cons, ← List.append_assoc, finds, List.filterMap_append]
      cases made : piece.outcome with
      | token kind literal =>
          have first : piece.find? (lineAfter (before ++ piece.text)) =
              some (.token ⟨kind, String.ofList piece.text, literal,
                lineAfter (before ++ piece.text)⟩) := by
            rw [Piece.find?, made]
          rw [first]
          simp only [Option.toList_some, List.filterMap_cons, Find.token?, List.filterMap_nil,
            List.cons_append, gaps, List.forall_mem_cons]
          refine ⟨?_, ih (Int.le_refl _)⟩
          simp only [Token.gap, String.toList_ofList]
          omega
      | complaint message =>
          rw [Piece.find?, made]
          exact ih (by omega)
      | nothing =>
          rw [Piece.find?, made]
          exact ih (by omega)

/-! ## Reading what was written -/

/-- What was written starts with a space or a line end, if with anything. -/
theorem head_respell {line : Int} {tokens : List Token} {c : Char}
    (member : c ∈ (respell line tokens).head?) : c = ' ' ∨ c = '\n' := by
  induction tokens generalizing line with
  | nil => simp [respell] at member
  | cons token rest ih =>
      rw [respell, List.append_assoc] at member
      cases count : (token.gap line).toNat with
      | succ others =>
          rw [count, List.replicate_succ, List.cons_append, List.head?_cons,
            Option.mem_some] at member
          exact .inr member.symm
      | zero =>
          rw [count, List.replicate_zero, List.nil_append, Token.spelling] at member
          split at member
          · exact ih member
          · exact .inl (Option.mem_some.mp member).symm

/-- Line ends are pieces of their own. -/
theorem cutting_newlines (count : Nat) {after : List Char} {pieces : List Piece}
    (cutting : Cutting after pieces) :
    Cutting (List.replicate count '\n' ++ after) (List.replicate count newline ++ pieces) := by
  induction count with
  | zero => simpa using cutting
  | succ count ih =>
      rw [List.replicate_succ, List.replicate_succ]
      exact .cons (longest_newline _) ih

theorem finds_newlines (count : Nat) (before : List Char) (pieces : List Piece) :
    finds before (List.replicate count newline ++ pieces) =
      finds (before ++ List.replicate count '\n') pieces := by
  induction count generalizing before with
  | zero => simp
  | succ count ih =>
      rw [List.replicate_succ, List.cons_append, finds, ih, List.replicate_succ]
      simp [newline, Piece.find?]

/-- A legible token is written after the line ends of its gap and a space. -/
theorem Token.Legible.spelling_eq {token : Token} (legible : token.Legible) :
    token.spelling = ' ' :: token.lexeme.toList := by
  obtain ⟨after, longest⟩ := legible
  exact if_neg (kind_ne_endOfInput_of_longest longest rfl)

/-- A token that is written behind its gap ends on the line that it carries. -/
theorem lineAfter_spelling {token : Token} (legible : token.Legible) {before : List Char}
    {line : Int} (start : (lineAfter before : Int) = line) (spaced : 0 ≤ token.gap line) :
    (lineAfter (before ++ (List.replicate (token.gap line).toNat '\n' ++ token.spelling)) : Int) =
      token.line := by
  have lines := lineAfter_append before
    (List.replicate (token.gap line).toNat '\n' ++ token.spelling)
  have count : (List.replicate (token.gap line).toNat '\n' ++ token.spelling).count '\n' =
      (token.gap line).toNat + token.lexeme.toList.count '\n' := by
    simp [legible.spelling_eq]
  have gap : token.gap line = token.line - line - token.lexeme.toList.count '\n' := rfl
  omega

/-- A token that is written behind its gap is found there, whatever is written after it. -/
theorem cutting_spelling {token : Token} (legible : token.Legible) {before after : List Char}
    {pieces : List Piece} (cutting : Cutting after pieces)
    (space : ∀ c ∈ after.head?, c = ' ' ∨ c = '\n') {line : Int}
    (start : (lineAfter before : Int) = line) (spaced : 0 ≤ token.gap line) :
    let written := List.replicate (token.gap line).toNat '\n' ++ token.spelling
    ∃ others, Cutting (written ++ after) others ∧
      finds before others = .token token :: finds (before ++ written) pieces := by
  intro written
  have ends : (lineAfter (before ++ written) : Int) = token.line :=
    lineAfter_spelling legible start spaced
  have spelled : written =
      List.replicate (token.gap line).toNat '\n' ++ ' ' :: token.lexeme.toList := by
    rw [← legible.spelling_eq]
  obtain ⟨stood, longest⟩ := legible
  have again : Longest ⟨token.lexeme.toList, .token token.kind token.literal⟩ after :=
    longest.spaced rfl space
  have blank : Longest ⟨[' '], .nothing⟩ (token.lexeme.toList ++ after) := .space (by decide)
  refine ⟨List.replicate (token.gap line).toNat newline ++ ⟨[' '], .nothing⟩ ::
    ⟨token.lexeme.toList, .token token.kind token.literal⟩ :: pieces, ?_, ?_⟩
  · rw [spelled, List.append_assoc]
    exact cutting_newlines _ (.cons blank (.cons again cutting))
  · have place : before ++ List.replicate (token.gap line).toNat '\n' ++ [' '] ++
        token.lexeme.toList = before ++ written := by
      simp [spelled]
    rw [finds_newlines, finds, finds, place]
    simp only [Piece.find?, ends, String.ofList_toList]
    rfl

/-- Tokens that are legible and have no negative gap are found again where they are
written, and nothing else is, and what is written ends on the line of the end of input. -/
theorem cutting_respell {before : List Char} {line last : Int}
    (start : (lineAfter before : Int) = line) {tokens : List Token}
    (legible : ∀ token ∈ tokens, token.Legible)
    (spaced : ∀ gap ∈ gaps line (tokens ++ [.endOfInput last]), 0 ≤ gap) :
    (lineAfter (before ++ respell line (tokens ++ [.endOfInput last])) : Int) = last ∧
      ∃ pieces, Cutting (respell line (tokens ++ [.endOfInput last])) pieces ∧
        finds before pieces = tokens.map Find.token := by
  induction tokens generalizing before line with
  | nil =>
      have written : respell line ([] ++ [.endOfInput last]) =
          List.replicate (last - line).toNat '\n' ++ [] := by
        simp [respell]
      have gap : 0 ≤ last - line := by simpa [gaps] using spaced
      have lines := lineAfter_append before (List.replicate (last - line).toNat '\n')
      refine ⟨?_, List.replicate (last - line).toNat newline ++ [], ?_, ?_⟩
      · rw [written, List.append_nil, lines, List.count_replicate_self]
        omega
      · rw [written]
        exact cutting_newlines _ .nil
      · rw [finds_newlines]
        rfl
  | cons token rest ih =>
      rw [List.forall_mem_cons] at legible
      rw [List.cons_append, gaps, List.forall_mem_cons] at spaced
      have ends := lineAfter_spelling legible.1 start spaced.1
      obtain ⟨final, pieces, cutting, found⟩ := ih ends legible.2 spaced.2
      obtain ⟨others, whole, first⟩ :=
        cutting_spelling legible.1 cutting (fun c member => head_respell member) start spaced.1
      rw [List.cons_append, respell]
      refine ⟨?_, others, whole, ?_⟩
      · rw [← List.append_assoc]
        exact final
      · rw [first, found, List.map_cons]

theorem filterMap_token?_map (tokens : List Token) :
    (tokens.map Find.token).filterMap Find.token? = tokens := by
  rw [List.filterMap_map]
  exact List.filterMap_some

theorem filterMap_report?_map (tokens : List Token) :
    (tokens.map Find.token).filterMap Find.report? = [] := by
  rw [List.filterMap_map, List.filterMap_eq_nil_iff]
  exact fun token member => rfl

variable {Sink Other : Type} [ReportSink Sink] [ReportSink Other]

theorem isFound_of_mem_run (sink : Sink) {text : List Char} {token : Token}
    (member : token ∈ (Lexer.ofText text sink).run.tokens.toList) : token.IsFound := by
  have cutting := cutting_segments text
  rw [tokens_run_of_cutting cutting, List.mem_append, List.mem_singleton] at member
  rcases member with found | last
  · exact .inl (legible_of_mem cutting found)
  · exact .inr ⟨_, last⟩

/-- **The round trip.**  Of the tokens of a text, no gap is negative; and the text that is
written from them has just these tokens, end of input included, and no report. -/
theorem run_respell (sink : Sink) (other : Other) (text : List Char) :
    let tokens := (Lexer.ofText text sink).run.tokens.toList
    let again := (Lexer.ofText (respell 1 tokens) other).run
    (∀ gap ∈ gaps 1 tokens, 0 ≤ gap) ∧ again.tokens.toList = tokens ∧ again.sink = other ∧
      again.complaints = 0 := by
  intro tokens again
  have cutting := cutting_segments text
  have made : tokens = _ := tokens_run_of_cutting cutting sink
  have whole := flatMap_text_of_cutting cutting
  have spaced : ∀ gap ∈ gaps 1 tokens, 0 ≤ gap := by
    have nonneg := gaps_nonneg (Int.le_refl (lineAfter [])) ((segments text).map Segment.piece)
    rw [List.nil_append, whole, ← made] at nonneg
    exact nonneg
  have start : (lineAfter [] : Int) = 1 := rfl
  have legible : ∀ token ∈ (finds [] ((segments text).map Segment.piece)).filterMap Find.token?,
      token.Legible := fun token member => legible_of_mem cutting member
  rw [made] at spaced
  obtain ⟨last, pieces, written, found⟩ := cutting_respell start legible spaced
  rw [List.nil_append, ← made] at last
  rw [← made] at written spaced
  refine ⟨spaced, ?_, ?_, ?_⟩
  · rw [tokens_run_of_cutting written, found, last, filterMap_token?_map, made]
  · rw [sink_run_of_cutting written, found, filterMap_report?_map]
    rfl
  · rw [complaints_run_of_cutting written, found, filterMap_report?_map]
    rfl

/-- Lexemes that stood together stand apart, and a string that ends on the third line
starts where it did. -/
example :
    String.ofList (respell 1 (Lexer.ofText "a=b//c\n\"d\ne\"@".toList
      Recorder.empty).run.tokens.toList) = " a = b\n \"d\ne\"" := by
  decide +kernel

end LoxLexer
