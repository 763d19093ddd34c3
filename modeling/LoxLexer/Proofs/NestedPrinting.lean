/-
# LoxLexer.Proofs.NestedPrinting -- a value one level further in

A value that stands one level further in is printed alike, but for the spaces of one more
indent behind every line end (`printAt_succ`).  That is so because the line ends of a
printed text are the printer's own: whatever a string holds, it is written without a line
end, and so the lines can be moved without a change to any value.

Hence a printed scan holds the text of its tokens as it is printed alone, moved in by one
level, and nothing but a closing brace comes after it: `Scan.print_eq_tokens`.
-/
import LoxLexer.Proofs.JsonText

namespace LoxLexer

set_option autoImplicit false

namespace Json

/-! ## Moving texts in -/

/-- A text with that many spaces more behind every line end. -/
def indentLines (spaces : Nat) (text : List Char) : List Char :=
  text.flatMap fun c => if c = '\n' then '\n' :: List.replicate spaces ' ' else [c]

/-- A text moved in by one level.  A text without an indent stays as it is. -/
def moveIn (indent : Option Int) (text : List Char) : List Char :=
  match indent with
  | none => text
  | some width => indentLines width.toNat text

theorem indentLines_of_notMem {text : List Char} (single : '\n' ∉ text) (spaces : Nat) :
    indentLines spaces text = text := by
  induction text with
  | nil => rfl
  | cons c text ih =>
      rw [List.mem_cons, not_or] at single
      have kept : indentLines spaces (c :: text) = [c] ++ indentLines spaces text := by
        rw [indentLines, List.flatMap_cons, if_neg (Ne.symm single.1)]
        rfl
      rw [kept, ih single.2, List.singleton_append]

section Moving

variable {indent : Option Int}

@[simp] theorem moveIn_append (first second : List Char) :
    moveIn indent (first ++ second) = moveIn indent first ++ moveIn indent second := by
  cases indent with
  | none => rfl
  | some width => exact List.flatMap_append

/-- What can be printed without an indent has no lines to move. -/
theorem moveIn_of_fits {text : List Char} (fits : Fits none text) : moveIn indent text = text := by
  cases indent with
  | none => rfl
  | some width =>
      apply indentLines_of_notMem
      intro member
      rcases fits '\n' member with shown | ⟨-, broken⟩
      · exact shown.ne_newline rfl
      · exact broken rfl

/-- The spaces of a line break are those of its level, and one level more is one indent more. -/
@[simp] theorem moveIn_lineBreak (level : Nat) :
    moveIn indent (lineBreak indent level) = lineBreak indent (level + 1) := by
  cases indent with
  | none => rfl
  | some width =>
      have spaces : '\n' ∉ List.replicate (width.toNat * level) ' ' := by
        intro member
        cases List.eq_of_mem_replicate member
      show '\n' :: List.replicate width.toNat ' ' ++ indentLines width.toNat _ =
        '\n' :: List.replicate (width.toNat * (level + 1)) ' '
      rw [indentLines_of_notMem spaces, List.cons_append, List.replicate_append_replicate,
        Nat.mul_succ, Nat.add_comm]

@[simp] theorem moveIn_separator (level : Nat) :
    moveIn indent (separator indent level) = separator indent (level + 1) := by
  cases indent with
  | none => rfl
  | some width =>
      have comma : moveIn (some width) [','] = [','] := moveIn_of_fits (fits_of_all (by decide))
      show moveIn (some width) ([','] ++ lineBreak (some width) level) = _
      rw [moveIn_append, comma, moveIn_lineBreak]
      rfl

@[simp] theorem moveIn_intercalate (level : Nat) (texts : List (List Char)) :
    moveIn indent ((separator indent level).intercalate texts) =
      (separator indent (level + 1)).intercalate (texts.map (moveIn indent)) := by
  induction texts with
  | nil => exact moveIn_of_fits fits_nil
  | cons first texts ih =>
      cases texts with
      | nil => rw [List.map_singleton, List.intercalate_singleton, List.intercalate_singleton]
      | cons second texts =>
          rw [List.map_cons] at ih
          rw [List.map_cons, List.map_cons, List.intercalate_cons_cons,
            List.intercalate_cons_cons, moveIn_append, moveIn_append, moveIn_separator, ih]

theorem moveIn_bracketed (level : Nat) {opening closing : Char} (opens : Text.Shown opening)
    (closes : Text.Shown closing) (texts : List (List Char)) :
    moveIn indent (bracketed indent level opening closing texts) =
      bracketed indent (level + 1) opening closing (texts.map (moveIn indent)) := by
  have close : moveIn indent [closing] = [closing] := moveIn_of_fits (fits_nil.cons closes)
  have start : moveIn indent [opening] = [opening] := moveIn_of_fits (fits_nil.cons opens)
  cases texts with
  | nil => exact moveIn_of_fits ((fits_nil.cons closes).cons opens)
  | cons first texts =>
      show moveIn indent ([opening] ++ lineBreak indent (level + 1) ++ _ ++
        lineBreak indent level ++ [closing]) = _
      simp only [moveIn_append, start, close, moveIn_lineBreak, moveIn_intercalate]
      rfl

end Moving

/-! ## Values -/

mutual

/-- **One level further in, a value is printed with its lines moved in.** -/
theorem printAt_succ (indent : Option Int) (level : Nat) :
    ∀ value, printAt indent (level + 1) value = moveIn indent (printAt indent level value)
  | .null => (moveIn_of_fits (fits_printAt level .null)).symm
  | .bool true => (moveIn_of_fits (fits_printAt level (.bool true))).symm
  | .bool false => (moveIn_of_fits (fits_printAt level (.bool false))).symm
  | .integer value => (moveIn_of_fits (fits_printInteger value)).symm
  | .double value => (moveIn_of_fits (fits_double value)).symm
  | .string text => (moveIn_of_fits (fits_printString text)).symm
  | .array items => by
      rw [printAt, printAt, printItems_succ, moveIn_bracketed _ (by decide) (by decide)]
  | .object members => by
      rw [printAt, printAt, printMembers_succ, moveIn_bracketed _ (by decide) (by decide)]

theorem printItems_succ (indent : Option Int) (level : Nat) :
    ∀ items, printItems indent (level + 1) items =
      (printItems indent level items).map (moveIn indent)
  | [] => rfl
  | item :: items => by
      rw [printItems, printItems, printAt_succ, printItems_succ, List.map_cons]

theorem printMembers_succ (indent : Option Int) (level : Nat) :
    ∀ members, printMembers indent (level + 1) members =
      (printMembers indent level members).map (moveIn indent)
  | [] => rfl
  | (name, value) :: members => by
      have colon : Fits none (printString name ++ [':', ' ']) :=
        (fits_printString name).append (fits_of_all (by decide))
      have member : moveIn indent (printString name ++ ':' :: ' ' :: printAt indent level value) =
          printString name ++ ':' :: ' ' :: printAt indent (level + 1) value := by
        show moveIn indent (printString name ++ ([':', ' '] ++ _)) = _
        rw [← List.append_assoc, moveIn_append, moveIn_of_fits colon, ← printAt_succ,
          List.append_assoc]
        rfl
      rw [printMembers, printMembers, printMembers_succ, List.map_cons, member]

end

/-! ## The last member of an object -/

/-- Texts with one at the end: each of the others has a separator behind it. -/
theorem intercalate_concat (between : List Char) (texts : List (List Char)) (last : List Char) :
    between.intercalate (texts ++ [last]) = texts.flatMap (· ++ between) ++ last := by
  induction texts with
  | nil => exact List.intercalate_singleton
  | cons first texts ih =>
      obtain ⟨second, others, same⟩ : ∃ second others, texts ++ [last] = second :: others :=
        List.exists_cons_of_ne_nil (List.append_ne_nil_of_right_ne_nil _ (List.cons_ne_nil _ _))
      rw [List.cons_append, same, List.intercalate_cons_cons, ← same, ih, List.flatMap_cons,
        List.append_assoc _ _ last]

theorem printMembers_concat (indent : Option Int) (level : Nat) (members : List (String × Json))
    (name : String) (value : Json) :
    printMembers indent level (members ++ [(name, value)]) =
      printMembers indent level members ++
        [printString name ++ ':' :: ' ' :: printAt indent level value] := by
  induction members with
  | nil => rfl
  | cons member members ih =>
      rw [List.cons_append, printMembers, ih, printMembers, List.cons_append]

/-- What an object starts with if members are yet to come: the brace, and the members so far
with a separator behind each. -/
def opened (indent : Option Int) (level : Nat) (members : List (String × Json)) : List Char :=
  '\x7b' :: lineBreak indent (level + 1) ++
    (printMembers indent (level + 1) members).flatMap (· ++ separator indent (level + 1))

/-- The last member comes after the others and before the closing brace, and its value is
printed as it is one level further out, moved in. -/
theorem printAt_object_concat (indent : Option Int) (level : Nat)
    (members : List (String × Json)) (name : String) (value : Json) :
    printAt indent level (.object (members ++ [(name, value)])) =
      opened indent level members ++
        (printString name ++ ':' :: ' ' :: moveIn indent (printAt indent level value)) ++
        lineBreak indent level ++ ['\x7d'] := by
  rw [printAt, printMembers_concat, ← printAt_succ, bracketed, intercalate_concat, opened]
  · simp only [List.append_assoc]
  · exact List.append_ne_nil_of_right_ne_nil _ (List.cons_ne_nil _ _)

end Json

open Json

namespace Scan

/-- The members of a scan that come before its tokens. -/
def membersBeforeTokens (scan : Scan) : List (String × Json) :=
  [("diagnostics", .array (scan.diagnostics.map Diagnostic.toJson)),
   ("file", .string scan.filename),
   ("ok", .bool scan.ok)]

theorem toList_print (scan : Scan) (indent : Option Int) :
    (scan.print indent).toList =
      opened indent 0 scan.membersBeforeTokens ++ "\"tokens\": ".toList ++
        moveIn indent (printTokens indent scan.tokens).toList ++ lineBreak indent 0 ++
        ['\x7d'] := by
  have members : scan.toJson = .object (scan.membersBeforeTokens ++
      [("tokens", tokensJson scan.tokens)]) := rfl
  have name : "\"tokens\": ".toList = printString "tokens" ++ [':', ' '] := by decide
  rw [print, Json.print, String.toList_ofList, members, printAt_object_concat, name, printTokens,
    Json.print, String.toList_ofList]
  simp only [List.append_assoc, List.cons_append, List.nil_append]

/-- **A printed scan ends with its tokens, as they are printed alone.**  Without an indent
they stand there as they are, and a brace comes after them.  With an indent, of whatever
width, each of their lines but the first has one indent more, and a line end and a brace come
after them.  Before them there are their name and the other members.  So it is whatever the
scan holds. -/
theorem print_eq_tokens (scan : Scan) :
    (scan.print none).toList =
      opened none 0 scan.membersBeforeTokens ++ "\"tokens\": ".toList ++
        (printTokens none scan.tokens).toList ++ ['\x7d'] ∧
    ∀ width : Int, (scan.print (some width)).toList =
      opened (some width) 0 scan.membersBeforeTokens ++ "\"tokens\": ".toList ++
        indentLines (max width 0).toNat (printTokens (some width) scan.tokens).toList ++
        ['\n', '\x7d'] := by
  constructor
  · rw [toList_print, lineBreak, List.append_nil]
    rfl
  · intro width
    have spaces : (max width 0).toNat = width.toNat := by omega
    rw [toList_print, spaces, List.append_assoc _ (lineBreak _ _)]
    rfl

/-- An empty list stays on the line of its name, also where lines are broken without an indent. -/
example :
    print (some (-1)) ⟨"a", [], []⟩ =
      "\x7b\n\"diagnostics\": [],\n\"file\": \"a\",\n\"ok\": true,\n\"tokens\": []\n\x7d" := by
  decide +kernel

end Scan

end LoxLexer
