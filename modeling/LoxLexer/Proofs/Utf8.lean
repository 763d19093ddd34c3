/-
# LoxLexer.Proofs.Utf8 -- encoded text is read back

`decode_encode` says that the decoder reads exactly what the encoder writes, so a file
that holds the bytes of a text is read as that text.

The decoder narrows the bounds of the second byte after some first bytes, to keep out
overlong forms, surrogates and numbers past the last character.  No character needs a
byte beyond these bounds (`owedAfter?_three`, `owedAfter?_four`): this is where the
proof uses that a character is no surrogate.
-/
import LoxLexer.Text.Utf8

namespace LoxLexer.Text.Utf8

set_option autoImplicit false

/-! ## Single bytes -/

@[simp] theorem toNat_tail (value : Nat) : (tail value).toNat = 0x80 + value % 64 :=
  UInt8.toNat_ofNat_of_lt' (by simp only [UInt8.size]; omega)

theorem toNat_first {lead : Nat} (small : lead < 256) : (UInt8.ofNat lead).toNat = lead :=
  UInt8.toNat_ofNat_of_lt' (by simpa [UInt8.size] using small)

theorem decodeFrom_ascii {byte : UInt8} (low : byte.toNat < 0x80) (offset : Nat)
    (done : List Char) (bytes : List UInt8) :
    decodeFrom offset none done (byte :: bytes) =
      decodeFrom (offset + 1) none (Char.ofNat byte.toNat :: done) bytes := by
  rw [decodeFrom, if_pos low]

theorem decodeFrom_first {byte : UInt8} {owed : Owed} (high : 0x80 ≤ byte.toNat)
    (promised : owedAfter? byte = some owed) (offset : Nat) (done : List Char)
    (bytes : List UInt8) :
    decodeFrom offset none done (byte :: bytes) =
      decodeFrom (offset + 1) (some owed) done bytes := by
  rw [decodeFrom, if_neg (Nat.not_lt.mpr high), promised]

/-- A sequence under way takes a byte within its bounds and owes one less. -/
theorem decodeFrom_next {count low high value next : Nat} {run : List UInt8}
    (lower : low ≤ 0x80 + next % 64) (upper : 0x80 + next % 64 ≤ high) (offset : Nat)
    (done : List Char) (bytes : List UInt8) :
    decodeFrom offset (some ⟨count + 2, low, high, value, run⟩) done (tail next :: bytes) =
      decodeFrom (offset + 1)
        (some ⟨count + 1, 0x80, 0xBF, value * 64 + next % 64, run ++ [tail next]⟩) done bytes := by
  have bits : (0x80 + next % 64) % 64 = next % 64 := by omega
  simp only [decodeFrom, Owed.take, toNat_tail, bits, if_pos (And.intro lower upper)]
  exact if_neg (Nat.succ_ne_zero count)

/-- The last byte that a sequence owes completes its character. -/
theorem decodeFrom_last {low high value next : Nat} {run : List UInt8}
    (lower : low ≤ 0x80 + next % 64) (upper : 0x80 + next % 64 ≤ high) (offset : Nat)
    (done : List Char) (bytes : List UInt8) :
    decodeFrom offset (some ⟨1, low, high, value, run⟩) done (tail next :: bytes) =
      decodeFrom (offset + 1) none (Char.ofNat (value * 64 + next % 64) :: done) bytes := by
  have bits : (0x80 + next % 64) % 64 = next % 64 := by omega
  simp only [decodeFrom, Owed.take, toNat_tail, bits, if_pos (And.intro lower upper)]
  exact if_pos trivial

/-! ## What first bytes promise -/

theorem owedAfter?_two {value : Nat} (lower : 0x80 ≤ value) (upper : value < 0x800) :
    owedAfter? (UInt8.ofNat (0xC0 + value / 64)) =
      some ⟨1, 0x80, 0xBF, value / 64, [UInt8.ofNat (0xC0 + value / 64)]⟩ := by
  have lead : (UInt8.ofNat (0xC0 + value / 64)).toNat = 0xC0 + value / 64 :=
    toNat_first (by omega)
  have range : 0xC2 ≤ 0xC0 + value / 64 ∧ 0xC0 + value / 64 ≤ 0xDF := by omega
  simp only [owedAfter?, lead, if_pos range, Nat.add_sub_cancel_left]

/-- The bounds on the second of three bytes let every character through. -/
theorem owedAfter?_three {value : Nat} (lower : 0x800 ≤ value) (upper : value < 0x10000)
    (scalar : value < 0xD800 ∨ 0xDFFF < value) :
    ∃ low high, owedAfter? (UInt8.ofNat (0xE0 + value / 4096)) =
        some ⟨2, low, high, value / 4096, [UInt8.ofNat (0xE0 + value / 4096)]⟩ ∧
      low ≤ 0x80 + value / 64 % 64 ∧ 0x80 + value / 64 % 64 ≤ high := by
  have lead : (UInt8.ofNat (0xE0 + value / 4096)).toNat = 0xE0 + value / 4096 :=
    toNat_first (by omega)
  have noTwo : ¬ (0xC2 ≤ 0xE0 + value / 4096 ∧ 0xE0 + value / 4096 ≤ 0xDF) := by omega
  simp only [owedAfter?, lead, if_neg noTwo]
  by_cases first : value / 4096 = 0
  · exact ⟨0xA0, 0xBF, by simp [first], by omega, by omega⟩
  by_cases last : value / 4096 = 0xD
  · exact ⟨0x80, 0x9F, by simp [last], by omega, by omega⟩
  · have noFirst : ¬ 0xE0 + value / 4096 = 0xE0 := by omega
    have noLast : ¬ 0xE0 + value / 4096 = 0xED := by omega
    have range : 0xE1 ≤ 0xE0 + value / 4096 ∧ 0xE0 + value / 4096 ≤ 0xEF := by omega
    refine ⟨0x80, 0xBF, ?_, by omega, by omega⟩
    rw [if_neg noFirst, if_neg noLast, if_pos range, Nat.add_sub_cancel_left]

/-- So do the bounds on the second of four bytes. -/
theorem owedAfter?_four {value : Nat} (lower : 0x10000 ≤ value) (upper : value < 0x110000) :
    ∃ low high, owedAfter? (UInt8.ofNat (0xF0 + value / 262144)) =
        some ⟨3, low, high, value / 262144, [UInt8.ofNat (0xF0 + value / 262144)]⟩ ∧
      low ≤ 0x80 + value / 4096 % 64 ∧ 0x80 + value / 4096 % 64 ≤ high := by
  have lead : (UInt8.ofNat (0xF0 + value / 262144)).toNat = 0xF0 + value / 262144 :=
    toNat_first (by omega)
  have block : value / 262144 = 0 ∨ value / 262144 = 4 ∨
      1 ≤ value / 262144 ∧ value / 262144 ≤ 3 := by omega
  rcases block with first | last | ⟨least, most⟩
  · exact ⟨0x90, 0xBF, by simp [owedAfter?, first], by omega, by omega⟩
  · exact ⟨0x80, 0x8F, by simp [owedAfter?, last], by omega, by omega⟩
  · refine ⟨0x80, 0xBF, ?_, by omega, by omega⟩
    have noTwo : ¬ (0xC2 ≤ 0xF0 + value / 262144 ∧ 0xF0 + value / 262144 ≤ 0xDF) := by omega
    have noThree : ¬ (0xE1 ≤ 0xF0 + value / 262144 ∧ 0xF0 + value / 262144 ≤ 0xEF) := by omega
    have range : 0xF1 ≤ 0xF0 + value / 262144 ∧ 0xF0 + value / 262144 ≤ 0xF3 := by omega
    have other (byte : Nat) (far : byte < 0xF1) : ¬ 0xF0 + value / 262144 = byte := by omega
    simp only [owedAfter?, lead, if_neg noTwo, if_neg noThree, if_pos range, other 0xE0 (by omega),
      other 0xED (by omega), other 0xF0 (by omega), if_false, Nat.add_sub_cancel_left]

/-! ## Characters and texts -/

/-- **A character is read back**, whatever was read before it and whatever comes after it. -/
@[simp] theorem decodeFrom_encodeChar (c : Char) (offset : Nat) (done : List Char)
    (bytes : List UInt8) :
    decodeFrom offset none done (encodeChar c ++ bytes) =
      decodeFrom (offset + (encodeChar c).length) none (c :: done) bytes := by
  have valid : c.toNat < 0xD800 ∨ 0xDFFF < c.toNat ∧ c.toNat < 0x110000 := c.valid
  have again : Char.ofNat c.toNat = c := Char.ofNat_toNat c
  unfold encodeChar
  generalize c.toNat = value at valid again ⊢
  by_cases one : value < 0x80
  · have byte : (UInt8.ofNat value).toNat = value := toNat_first (by omega)
    rw [if_pos one, List.cons_append, List.nil_append, decodeFrom_ascii (by omega), byte, again]
    rfl
  by_cases two : value < 0x800
  · have lead : (UInt8.ofNat (0xC0 + value / 64)).toNat = 0xC0 + value / 64 :=
      toNat_first (by omega)
    have whole : value / 64 * 64 + value % 64 = value := by omega
    simp only [if_neg one, if_pos two, List.cons_append, List.nil_append]
    rw [decodeFrom_first (by omega) (owedAfter?_two (by omega) two),
      decodeFrom_last (Nat.le_add_right _ _) (by omega), whole, again]
    rfl
  by_cases three : value < 0x10000
  · have lead : (UInt8.ofNat (0xE0 + value / 4096)).toNat = 0xE0 + value / 4096 :=
      toNat_first (by omega)
    have whole : (value / 4096 * 64 + value / 64 % 64) * 64 + value % 64 = value := by omega
    obtain ⟨low, high, owed, lower, upper⟩ :=
      owedAfter?_three (Nat.not_lt.mp two) three (by omega)
    simp only [if_neg one, if_neg two, if_pos three, List.cons_append, List.nil_append]
    rw [decodeFrom_first (by omega) owed, decodeFrom_next lower upper,
      decodeFrom_last (Nat.le_add_right _ _) (by omega), whole, again]
    rfl
  · have lead : (UInt8.ofNat (0xF0 + value / 262144)).toNat = 0xF0 + value / 262144 :=
      toNat_first (by omega)
    have whole : ((value / 262144 * 64 + value / 4096 % 64) * 64 + value / 64 % 64) * 64 +
        value % 64 = value := by
      omega
    obtain ⟨low, high, owed, lower, upper⟩ :=
      owedAfter?_four (Nat.not_lt.mp three) (by omega)
    simp only [if_neg one, if_neg two, if_neg three, List.cons_append, List.nil_append]
    rw [decodeFrom_first (by omega) owed, decodeFrom_next lower upper,
      decodeFrom_next (Nat.le_add_right _ _) (by omega),
      decodeFrom_last (Nat.le_add_right _ _) (by omega), whole, again]
    rfl

/-- A text is read back before whatever comes after it. -/
@[simp] theorem decodeFrom_encode (text : List Char) (offset : Nat) (done : List Char)
    (bytes : List UInt8) :
    decodeFrom offset none done (encode text ++ bytes) =
      decodeFrom (offset + (encode text).length) none (text.reverse ++ done) bytes := by
  induction text generalizing offset done with
  | nil => rfl
  | cons c rest ih =>
      have bytesOf : encode (c :: rest) = encodeChar c ++ encode rest := List.flatMap_cons
      rw [bytesOf, List.append_assoc, decodeFrom_encodeChar, ih, List.length_append, Nat.add_assoc,
        List.reverse_cons, List.append_assoc]
      rfl

/-- **What is written is read back.** -/
@[simp] theorem decode_encode (text : List Char) : decode (encode text) = .ok text := by
  have read := decodeFrom_encode text 0 [] []
  rw [List.append_nil, List.append_nil] at read
  rw [decode, read, decodeFrom, List.reverse_reverse]

end LoxLexer.Text.Utf8
