/-
# LoxLexer.Proofs.Boundary -- where a piece ends, whatever comes after it

Whether a piece is the longest where it starts depends on the text after it by at
most two characters: the next one, which must not go on with the piece, and after a
number the digit behind a point.  So the text after a piece can be exchanged for
another without making the piece longer, as long as these two characters do not
invite it to grow (`Longest.exchange`).

Some exchanges are used over and over: more text may be added where there is some
already (`Longest.append`), a line end may follow any piece but an unclosed string
(`Longest.append_newline`), a space may follow any token (`Longest.spaced`), and white
space anything closed but a comment (`Longest.before_space`).  `Cutting.exchange` carries
them over from one piece to all the pieces before a place.

The one trap is a number before a point that ends the text: a digit added after the
point makes one number of what was a number and a point.
-/
import LoxLexer.Proofs.LongestMatch

namespace LoxLexer

set_option autoImplicit false

/-- Whether a piece is a number. -/
def Piece.IsNumber (piece : Piece) : Prop := ∃ literal, piece.outcome = .token .number literal

/-- Whether a piece is an unclosed string. -/
def Piece.IsUnclosed (piece : Piece) : Prop :=
  piece.outcome = .complaint Report.unterminatedString

/-- Whether a piece is a comment. -/
def Piece.IsComment (piece : Piece) : Prop := ∃ body, piece = ⟨'/' :: '/' :: body, .nothing⟩

/-- The piece that a line end is. -/
def newline : Piece := ⟨['\n'], .nothing⟩

theorem longest_newline (after : List Char) : Longest newline after := .space (by decide)

/-! ## Exchanging what follows -/

/-- A class that is not gone on with is not gone on with after an exchange either, if
the next character is the same or is not of the class. -/
theorem NoMore.exchange {among : Char → Bool} {after other : List Char}
    (stops : NoMore among after)
    (same : ∀ c ∈ other.head?, c ∈ after.head? ∨ among c = false) : NoMore among other := by
  intro c member
  rcases same c member with kept | outside
  · exact stops c kept
  · exact outside

namespace Longest

variable {piece : Piece} {after : List Char}

/-- **Exchange.**  A closed piece stays the longest before another text, if that text
starts as the one before it did, or with a line end, or, after anything but a
comment, with a blank; and if it brings no new fraction to a number. -/
theorem exchange {other : List Char} (longest : Longest piece after)
    (closed : ¬ piece.IsUnclosed)
    (start : ∀ c ∈ other.head?, c ∈ after.head? ∨ c = '\n' ∨
      (c ∈ [' ', '\r', '\t'] ∧ piece.outcome ≠ .nothing))
    (fraction : piece.IsNumber → ∀ d rest, other = '.' :: d :: rest → d.isDigit = true →
      ∃ others, after = '.' :: d :: others) :
    Longest piece other := by
  -- No class holds the line end, and only that of comments holds blanks.
  have refused {among : Char → Bool} (newline : among '\n' = false)
      (blank : piece.outcome ≠ .nothing → [' ', '\r', '\t'].any among = false)
      (stops : NoMore among after) : NoMore among other := by
    refine stops.exchange fun c member => ?_
    rcases start c member with same | rfl | ⟨isBlank, token⟩
    · exact .inl same
    · exact .inr newline
    · exact .inr (eq_false_of_ne_true (List.any_eq_false.mp (blank token) c isBlank))
  cases longest with
  | mark listed => exact .mark listed
  | operator listed stops => exact .operator listed (refused rfl (fun _ => rfl) stops)
  | operatorEqual listed => exact .operatorEqual listed
  | slash stops => exact .slash (refused rfl (fun _ => rfl) stops)
  | comment sameLine stops =>
      exact .comment sameLine (refused rfl (fun token => absurd rfl token) stops)
  | space listed => exact .space listed
  | string unquoted => exact .string unquoted
  | unterminated _ => exact absurd rfl closed
  | integer nonempty kept stops noFraction =>
      refine .integer nonempty kept (refused rfl (fun _ => rfl) stops) fun d rest same => ?_
      rw [← Bool.not_eq_true]
      intro digit
      obtain ⟨others, before⟩ := fraction ⟨_, rfl⟩ d rest same digit
      simp [noFraction d others before] at digit
  | decimal nonempty wholeKept fractionNonempty fractionKept stops =>
      exact .decimal nonempty wholeKept fractionNonempty fractionKept
        (refused rfl (fun _ => rfl) stops)
  | keyword stops => exact .keyword (refused rfl (fun _ => rfl) stops)
  | identifier first kept stops unreserved =>
      exact .identifier first kept (refused rfl (fun _ => rfl) stops) unreserved
  | stray foreign unlisted => exact .stray foreign unlisted

/-- A piece that text follows is closed: only the end of the text leaves a string open. -/
theorem closed_of_followed (longest : Longest piece after) (followed : after ≠ []) :
    ¬ piece.IsUnclosed := by
  intro unclosed
  cases longest with
  | unterminated _ => exact followed rfl
  | stray _ _ =>
      have other : Report.unexpectedCharacter ≠ Report.unterminatedString := by decide
      exact other (Segment.Outcome.complaint.inj unclosed)
  | _ => cases unclosed

/-- **More text.**  A piece that text follows stays the longest if text is added, unless
it is a number and nothing but a point follows. -/
theorem append (longest : Longest piece after) (followed : after ≠ [])
    (pointless : piece.IsNumber → after ≠ ['.']) (more : List Char) :
    Longest piece (after ++ more) := by
  have closed := longest.closed_of_followed followed
  obtain ⟨c, rest, rfl⟩ := List.exists_cons_of_ne_nil followed
  refine longest.exchange closed (fun d member => .inl member) fun number d others same _ => ?_
  obtain ⟨rfl, tail⟩ : c = '.' ∧ rest ++ more = d :: others := by simpa using same
  cases rest with
  | nil => exact absurd rfl (pointless number)
  | cons e rest =>
      obtain ⟨rfl, -⟩ : e = d ∧ rest ++ more = others := by simpa using tail
      exact ⟨rest, rfl⟩

/-- **A line end.**  A closed piece stays the longest if a line end is added, and any
text after it. -/
theorem append_newline (longest : Longest piece after) (closed : ¬ piece.IsUnclosed)
    (more : List Char) : Longest piece (after ++ '\n' :: more) := by
  refine longest.exchange closed (fun c member => ?_) fun _ d rest same digit => ?_
  · cases after with
    | nil => exact .inr (.inl (by simpa using member.symm))
    | cons first others => exact .inl member
  · match after with
    | [] => simp at same
    | [c] =>
        obtain ⟨rfl, rfl, rfl⟩ : c = '.' ∧ '\n' = d ∧ more = rest := by simpa using same
        simp at digit
    | c :: e :: others =>
        obtain ⟨rfl, rfl, -⟩ : c = '.' ∧ e = d ∧ others ++ '\n' :: more = rest := by
          simpa using same
        exact ⟨others, rfl⟩

/-- **A space.**  A token stays the longest before a space, a line end or the end of the
text, whatever it stood before. -/
theorem spaced {kind : Kind} {literal : Literal} (longest : Longest piece after)
    (token : piece.outcome = .token kind literal) {other : List Char}
    (space : ∀ c ∈ other.head?, c = ' ' ∨ c = '\n') : Longest piece other := by
  refine longest.exchange (by simp [Piece.IsUnclosed, token]) (fun c member => ?_) ?_
  · rcases space c member with rfl | rfl
    · exact .inr (.inr ⟨by decide, by simp [token]⟩)
    · exact .inr (.inl rfl)
  · rintro - d rest rfl -
    simpa using space '.' rfl

/-- **Behind the next text.**  A closed piece stays the longest if some text directly after
it stays, and no digit comes behind that text. -/
theorem exchange_behind {first second other : List Char} (longest : Longest piece (first ++ second))
    (closed : ¬ piece.IsUnclosed) (nonempty : first ≠ []) (noDigit : NoMore Char.isDigit other) :
    Longest piece (first ++ other) := by
  obtain ⟨c, rest, rfl⟩ := List.exists_cons_of_ne_nil nonempty
  refine longest.exchange closed (fun d member => .inl member) fun _ d others same digit => ?_
  obtain ⟨rfl, tail⟩ : c = '.' ∧ rest ++ other = d :: others := by simpa using same
  cases rest with
  | nil =>
      rw [List.nil_append] at tail
      subst tail
      simp [noDigit d rfl] at digit
  | cons e rest =>
      obtain ⟨rfl, -⟩ : e = d ∧ rest ++ other = others := by simpa using tail
      exact ⟨rest ++ second, rfl⟩

/-- A piece that yields nothing is a space or a comment. -/
theorem of_quiet {text : List Char} (longest : Longest ⟨text, .nothing⟩ after) :
    (∃ c ∈ [' ', '\r', '\t', '\n'], text = [c]) ∨
      ∃ body, text = '/' :: '/' :: body ∧ '\n' ∉ body ∧ NoMore (· ≠ '\n') after := by
  cases longest with
  | comment sameLine stops => exact .inr ⟨_, rfl, sameLine, stops⟩
  | space listed => exact .inl ⟨_, listed, rfl⟩

/-- **White space.**  A closed piece that is no comment stays the longest before any white
space. -/
theorem before_space (longest : Longest piece after) (closed : ¬ piece.IsUnclosed)
    (code : ¬ piece.IsComment) {c : Char}
    (space : c ∈ [' ', '\r', '\t', '\n']) (rest : List Char) : Longest piece (c :: rest) := by
  obtain ⟨text, outcome⟩ := piece
  by_cases quiet : outcome = .nothing
  · subst quiet
    rcases longest.of_quiet with ⟨d, listed, rfl⟩ | ⟨body, rfl, -⟩
    · exact .space listed
    · exact absurd ⟨body, rfl⟩ code
  · refine longest.exchange closed (fun d member => ?_) fun _ d others same _ => ?_
    · obtain rfl : c = d := by simpa using member
      by_cases ends : c = '\n'
      · exact .inr (.inl ends)
      · exact .inr (.inr ⟨by simpa [ends] using space, quiet⟩)
    · obtain ⟨rfl, -⟩ : c = '.' ∧ rest = d :: others := by simpa using same
      simp at space

end Longest

/-! ## Exchanging what follows some pieces -/

/-- The last pieces of a cutting are a cutting of their own text. -/
theorem Cutting.drop {text : List Char} {kept tail : List Piece}
    (cutting : Cutting text (kept ++ tail)) : Cutting (tail.flatMap Piece.text) tail := by
  induction kept generalizing text with
  | nil => exact flatMap_text_of_cutting cutting ▸ cutting
  | cons piece kept ih =>
      cases cutting with
      | cons _ left => exact ih left

/-- The last pieces of a cutting make up the text behind that of the others. -/
theorem Cutting.flatMap_text_tail {first second : List Char} {kept tail : List Piece}
    (cutting : Cutting (first ++ second) (kept ++ tail))
    (place : kept.flatMap Piece.text = first) : tail.flatMap Piece.text = second := by
  have all := flatMap_text_of_cutting cutting
  rw [List.flatMap_append, place] at all
  exact List.append_cancel_left all

/-- The first piece of a cutting is the longest before the text of the others. -/
theorem Cutting.longest {text : List Char} {piece : Piece} {tail : List Piece}
    (cutting : Cutting text (piece :: tail)) : Longest piece (tail.flatMap Piece.text) := by
  cases cutting with
  | cons longest left => exact flatMap_text_of_cutting left ▸ longest

/-- **Exchange in a cutting.**  If pieces of a text stay the longest when the text after
them is exchanged, they are followed by the pieces of the other text. -/
theorem Cutting.exchange {text other : List Char} {kept tail others : List Piece}
    (cutting : Cutting text (kept ++ tail))
    (stable : ∀ earlier piece later, kept = earlier ++ piece :: later →
      Longest piece (later.flatMap Piece.text ++ tail.flatMap Piece.text) →
      Longest piece (later.flatMap Piece.text ++ other))
    (rest : Cutting other others) :
    Cutting (kept.flatMap Piece.text ++ other) (kept ++ others) := by
  induction kept generalizing text with
  | nil => exact rest
  | cons piece kept ih =>
      cases cutting with
      | cons longest left =>
          have after : (kept ++ tail).flatMap Piece.text = _ := flatMap_text_of_cutting left
          rw [← after, List.flatMap_append] at longest
          rw [List.flatMap_cons, List.append_assoc]
          refine .cons (stable [] piece kept rfl longest) (ih left ?_)
          intro earlier next later split
          exact stable (piece :: earlier) next later (by rw [split, List.cons_append])

/-- A closed piece that others follow stays the longest, so only the last of the pieces in
front of an exchange must be looked at. -/
theorem Cutting.exchange_last {text other : List Char} {kept tail others : List Piece}
    (cutting : Cutting text (kept ++ tail)) (closed : ∀ piece ∈ kept, ¬ piece.IsUnclosed)
    (noDigit : NoMore Char.isDigit other)
    (last : ∀ piece ∈ kept.getLast?, Longest piece (tail.flatMap Piece.text) →
      Longest piece other)
    (rest : Cutting other others) :
    Cutting (kept.flatMap Piece.text ++ other) (kept ++ others) := by
  have nonempty := text_ne_nil_of_cutting cutting
  apply cutting.exchange _ rest
  intro earlier piece later split longest
  have member : piece ∈ kept := by simp [split]
  cases later with
  | nil => exact last piece (by simp [split]) longest
  | cons next later =>
      apply longest.exchange_behind (closed piece member) _ noDigit
      simp [nonempty next (by simp [split])]

/-! ## What consecutive pieces yield -/

@[simp] theorem finds_append (before : List Char) (first second : List Piece) :
    finds before (first ++ second) =
      finds before first ++ finds (before ++ first.flatMap Piece.text) second := by
  induction first generalizing before with
  | nil => simp [finds]
  | cons piece rest ih =>
      rw [List.cons_append, finds, finds, ih, List.flatMap_cons]
      simp only [List.append_assoc]

/-- What a piece among others yields is found. -/
theorem mem_finds_of_mem {piece : Piece} {pieces : List Piece} (member : piece ∈ pieces)
    (before : List Char) :
    ∃ line, ∀ found, piece.find? line = some found → found ∈ finds before pieces := by
  obtain ⟨earlier, later, rfl⟩ := List.append_of_mem member
  refine ⟨lineAfter (before ++ earlier.flatMap Piece.text ++ piece.text), fun found made => ?_⟩
  rw [finds_append, finds, made]
  simp

end LoxLexer
