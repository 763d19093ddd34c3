/-
# LoxLexer.Proofs.Utf8Validity -- which bytes are text, and where others stop being it

The decoder accepts what the encoder writes (`decode_encode`); here it is shown to accept
nothing else (`decode_eq_ok_iff`), and to fail just behind the longest part in front that
is text (`isLongestText_of_decode`).

Between characters there are two cases only (`encodeChar_or_fails`): the bytes left start
with the encoding of a character, or the decoder fails at once, however far the failing
sequence goes.  So any bytes are an encoded text and a rest that is empty or fails where it
starts (`exists_encode_append`).  That the bounds which a first byte sets for the second
leave only characters, no overlong form, no surrogate and nothing past the last one, is
`exists_char_of_completes`.

What a text is encoded as is measured by the encoder of the standard library
(`encode_eq_toUTF8`).
-/
import LoxLexer.Proofs.Utf8

namespace LoxLexer.Text.Utf8

set_option autoImplicit false

/-! ## The encoder of the standard library -/

theorem encodeChar_eq (c : Char) : encodeChar c = String.utf8EncodeChar c := by
  have valid : c.toNat < 0xD800 ∨ 0xDFFF < c.toNat ∧ c.toNat < 0x110000 := c.valid
  have same : c.val.toNat = c.toNat := rfl
  simp only [encodeChar, String.utf8EncodeChar, tail, same]
  generalize c.toNat = value at valid ⊢
  by_cases one : value < 0x80
  · rw [if_pos one, if_pos (by omega)]
  by_cases two : value < 0x800
  · have first : 0xC0 + value / 64 = value / 64 % 32 + 192 := by omega
    rw [if_neg one, if_pos two, if_neg (by omega), if_pos (by omega), first,
      Nat.add_comm 0x80]
  by_cases three : value < 0x10000
  · have first : 0xE0 + value / 4096 = value / 4096 % 16 + 224 := by omega
    rw [if_neg one, if_neg two, if_pos three, if_neg (by omega), if_neg (by omega),
      if_pos (by omega), first, Nat.add_comm 0x80, Nat.add_comm 0x80]
  · have first : 0xF0 + value / 262144 = value / 262144 % 8 + 240 := by omega
    rw [if_neg one, if_neg two, if_neg three, if_neg (by omega), if_neg (by omega),
      if_neg (by omega), first, Nat.add_comm 0x80, Nat.add_comm 0x80, Nat.add_comm 0x80]

theorem encode_eq_toUTF8 (text : String) : encode text.toList = text.toUTF8.data.toList := by
  have standard : text.toUTF8 = text.toList.utf8Encode := String.utf8Encode_toList.symm
  rw [standard, List.utf8Encode, encode, funext encodeChar_eq, List.data_toByteArray]

/-! ## Sequences under way -/

/-- Whether a sequence under way goes on with a byte. -/
def Owed.Admits (owed : Owed) (byte : UInt8) : Prop :=
  owed.low ≤ byte.toNat ∧ byte.toNat ≤ owed.high

/-- Some bytes complete a sequence under way, to a number. -/
inductive Completes : Owed → List UInt8 → Nat → Prop where
  | last {owed : Owed} {byte : UInt8} (admitted : owed.Admits byte)
      (full : (owed.take byte).count = 0) : Completes owed [byte] (owed.take byte).value
  | next {owed : Owed} {byte : UInt8} {bytes : List UInt8} {value : Nat}
      (admitted : owed.Admits byte) (more : (owed.take byte).count ≠ 0)
      (completes : Completes (owed.take byte) bytes value) :
      Completes owed (byte :: bytes) value

/-- A sequence under way is completed by what comes, or fails where it started. -/
theorem completes_or_fails (owed : Owed) (bytes : List UInt8) :
    (∃ taken after value, bytes = taken ++ after ∧ Completes owed taken value) ∨
      ∃ run cause, ∀ offset done,
        decodeFrom offset (some owed) done bytes =
          .error ⟨offset - owed.run.length, run, cause⟩ := by
  induction bytes generalizing owed with
  | nil => exact .inr ⟨owed.run, .truncated, fun _ _ => rfl⟩
  | cons byte bytes ih =>
      by_cases admitted : owed.Admits byte
      · by_cases full : (owed.take byte).count = 0
        · exact .inl ⟨[byte], bytes, _, rfl, .last admitted full⟩
        rcases ih (owed.take byte) with ⟨taken, after, value, rfl, completes⟩ | ⟨run, cause, fails⟩
        · exact .inl ⟨byte :: taken, after, value, rfl, .next admitted full completes⟩
        · refine .inr ⟨run, cause, fun offset done => ?_⟩
          have start : offset + 1 - (owed.take byte).run.length = offset - owed.run.length := by
            simp [Owed.take, Nat.add_sub_add_right]
          have within : owed.low ≤ byte.toNat ∧ byte.toNat ≤ owed.high := admitted
          rw [decodeFrom]
          simp only [if_pos within, if_neg full]
          rw [fails, start]
      · refine .inr ⟨owed.run, .continuation, fun offset done => ?_⟩
        rw [decodeFrom]
        exact if_neg admitted

theorem exists_of_completes_one {low high value number : Nat} {run bytes : List UInt8}
    (completes : Completes ⟨1, low, high, value, run⟩ bytes number) :
    ∃ byte : UInt8, bytes = [byte] ∧ low ≤ byte.toNat ∧ byte.toNat ≤ high ∧
      number = value * 64 + byte.toNat % 64 := by
  cases completes with
  | @last _ byte admitted _ => exact ⟨byte, rfl, admitted.1, admitted.2, rfl⟩
  | next _ more _ => exact absurd rfl more

theorem exists_of_completes_more {count low high value number : Nat} {run bytes : List UInt8}
    (completes : Completes ⟨count + 2, low, high, value, run⟩ bytes number) :
    ∃ (byte : UInt8) (after : List UInt8), bytes = byte :: after ∧ low ≤ byte.toNat ∧
      byte.toNat ≤ high ∧
      Completes ⟨count + 1, 0x80, 0xBF, value * 64 + byte.toNat % 64, run ++ [byte]⟩ after
        number := by
  cases completes with
  | last _ full => exact absurd full (Nat.succ_ne_zero count)
  | @next _ byte after _ admitted _ completes =>
      exact ⟨byte, after, rfl, admitted.1, admitted.2, completes⟩

/-! ## What completed sequences encode -/

theorem exists_char (value : Nat) (small : value < 0x110000)
    (scalar : value < 0xD800 ∨ 0xDFFF < value) : ∃ c : Char, c.toNat = value := by
  have valid : value.isValidChar := by
    rcases scalar with below | above
    · exact .inl below
    · exact .inr ⟨above, small⟩
  exact ⟨Char.ofNatAux value valid, rfl⟩

theorem ofNat_eq {value : Nat} (byte : UInt8) (same : value = byte.toNat) :
    UInt8.ofNat value = byte := by
  rw [same]
  exact UInt8.ofNat_toNat

theorem tail_eq {value : Nat} (byte : UInt8) (same : 0x80 + value % 64 = byte.toNat) :
    tail value = byte := ofNat_eq byte same

/-- The three kinds of sequences that a first byte can promise, and the bounds on the second
byte. -/
theorem owedAfter?_cases {first : UInt8} {owed : Owed} (promised : owedAfter? first = some owed) :
    (0xC2 ≤ first.toNat ∧ first.toNat ≤ 0xDF ∧
      owed = ⟨1, 0x80, 0xBF, first.toNat - 0xC0, [first]⟩) ∨
    (∃ low high, 0xE0 ≤ first.toNat ∧ first.toNat ≤ 0xEF ∧
      owed = ⟨2, low, high, first.toNat - 0xE0, [first]⟩ ∧ 0x80 ≤ low ∧ high ≤ 0xBF ∧
      (first.toNat = 0xE0 → 0xA0 ≤ low) ∧ (first.toNat = 0xED → high ≤ 0x9F)) ∨
    (∃ low high, 0xF0 ≤ first.toNat ∧ first.toNat ≤ 0xF4 ∧
      owed = ⟨3, low, high, first.toNat - 0xF0, [first]⟩ ∧ 0x80 ≤ low ∧ high ≤ 0xBF ∧
      (first.toNat = 0xF0 → 0x90 ≤ low) ∧ (first.toNat = 0xF4 → high ≤ 0x8F)) := by
  unfold owedAfter? at promised
  dsimp only at promised
  split at promised
  · cases promised
    refine .inl ⟨?_, ?_, rfl⟩ <;> omega
  split at promised
  · rename_i byte
    cases promised
    refine .inr (.inl ⟨0xA0, 0xBF, ?_, ?_, by rw [byte], ?_⟩) <;> omega
  split at promised
  · rename_i byte
    cases promised
    refine .inr (.inl ⟨0x80, 0x9F, ?_, ?_, by rw [byte], ?_⟩) <;> omega
  split at promised
  · cases promised
    refine .inr (.inl ⟨0x80, 0xBF, ?_, ?_, rfl, ?_⟩) <;> omega
  split at promised
  · rename_i byte
    cases promised
    refine .inr (.inr ⟨0x90, 0xBF, ?_, ?_, by rw [byte], ?_⟩) <;> omega
  split at promised
  · cases promised
    refine .inr (.inr ⟨0x80, 0xBF, ?_, ?_, rfl, ?_⟩) <;> omega
  split at promised
  · rename_i byte
    cases promised
    refine .inr (.inr ⟨0x80, 0x8F, ?_, ?_, by rw [byte], ?_⟩) <;> omega
  · cases promised

/-- **A completed sequence is a character.**  The bounds on the second byte leave neither a
number that fewer bytes could hold nor one that is no character. -/
theorem exists_char_of_completes {first : UInt8} {owed : Owed}
    (promised : owedAfter? first = some owed) {bytes : List UInt8} {value : Nat}
    (completes : Completes owed bytes value) : ∃ c, encodeChar c = first :: bytes := by
  rcases owedAfter?_cases promised with
    ⟨lower, upper, rfl⟩ | ⟨low, high, lower, upper, rfl, least, most, overlong, surrogate⟩ |
      ⟨low, high, lower, upper, rfl, least, most, overlong, tooLarge⟩
  · obtain ⟨second, rfl, secondLow, secondHigh, number⟩ := exists_of_completes_one completes
    obtain ⟨c, same⟩ := exists_char value (by omega) (by omega)
    refine ⟨c, ?_⟩
    rw [encodeChar]
    simp only [same]
    rw [if_neg (by omega), if_pos (by omega), ofNat_eq first (by omega), tail_eq second (by omega)]
  · obtain ⟨second, after, rfl, secondLow, secondHigh, completes⟩ :=
      exists_of_completes_more completes
    obtain ⟨third, rfl, thirdLow, thirdHigh, number⟩ := exists_of_completes_one completes
    obtain ⟨c, same⟩ := exists_char value (by omega) (by omega)
    refine ⟨c, ?_⟩
    rw [encodeChar]
    simp only [same]
    rw [if_neg (by omega), if_neg (by omega), if_pos (by omega), ofNat_eq first (by omega),
      tail_eq second (by omega), tail_eq third (by omega)]
  · obtain ⟨second, after, rfl, secondLow, secondHigh, completes⟩ :=
      exists_of_completes_more completes
    obtain ⟨third, after, rfl, thirdLow, thirdHigh, completes⟩ :=
      exists_of_completes_more completes
    obtain ⟨fourth, rfl, fourthLow, fourthHigh, number⟩ := exists_of_completes_one completes
    obtain ⟨c, same⟩ := exists_char value (by omega) (by omega)
    refine ⟨c, ?_⟩
    rw [encodeChar]
    simp only [same]
    rw [if_neg (by omega), if_neg (by omega), if_neg (by omega), ofNat_eq first (by omega),
      tail_eq second (by omega), tail_eq third (by omega), tail_eq fourth (by omega)]

theorem length_run_of_owedAfter? {first : UInt8} {owed : Owed}
    (promised : owedAfter? first = some owed) : owed.run.length = 1 := by
  rcases owedAfter?_cases promised with
    ⟨_, _, rfl⟩ | ⟨_, _, _, _, rfl, _⟩ | ⟨_, _, _, _, rfl, _⟩
  · rfl
  · rfl
  · rfl

/-! ## Whole texts -/

/-- Between characters the bytes left start with a character, or the decoder fails there. -/
theorem encodeChar_or_fails (first : UInt8) (bytes : List UInt8) :
    (∃ c after, first :: bytes = encodeChar c ++ after) ∨
      ∃ run cause, ∀ offset done,
        decodeFrom offset none done (first :: bytes) = .error ⟨offset, run, cause⟩ := by
  by_cases low : first.toNat < 0x80
  · obtain ⟨c, same⟩ := exists_char first.toNat (by omega) (by omega)
    refine .inl ⟨c, bytes, ?_⟩
    rw [encodeChar]
    simp only [same]
    rw [if_pos low, ofNat_eq first rfl]
    rfl
  cases promised : owedAfter? first with
  | none =>
      refine .inr ⟨[first], .start, fun offset done => ?_⟩
      rw [decodeFrom, if_neg low, promised]
  | some owed =>
      rcases completes_or_fails owed bytes with
        ⟨taken, after, value, rfl, completes⟩ | ⟨run, cause, fails⟩
      · obtain ⟨c, encoded⟩ := exists_char_of_completes promised completes
        exact .inl ⟨c, after, by rw [encoded, List.cons_append]⟩
      · refine .inr ⟨run, cause, fun offset done => ?_⟩
        rw [decodeFrom_first (Nat.not_lt.mp low) promised, fails,
          length_run_of_owedAfter? promised, Nat.add_sub_cancel]

@[simp] theorem encode_append (first second : List Char) :
    encode (first ++ second) = encode first ++ encode second := List.flatMap_append

@[simp] theorem encodeChar_ne_nil (c : Char) : encodeChar c ≠ [] := by
  rw [encodeChar_eq]
  exact String.utf8EncodeChar_ne_nil

/-- Any bytes are an encoded text and a rest, which is empty or fails where it starts. -/
theorem exists_encode_append (bytes : List UInt8) :
    ∃ text after, bytes = encode text ++ after ∧
      (after = [] ∨ ∃ run cause, ∀ offset done,
        decodeFrom offset none done after = .error ⟨offset, run, cause⟩) := by
  induction counted : bytes.length using Nat.strongRecOn generalizing bytes with
  | ind length ih =>
      cases bytes with
      | nil => exact ⟨[], [], rfl, .inl rfl⟩
      | cons first bytes =>
          rcases encodeChar_or_fails first bytes with ⟨c, after, starts⟩ | fails
          · have some_byte := List.length_pos_iff.mpr (encodeChar_ne_nil c)
            have shorter : after.length < length := by
              rw [← counted, starts, List.length_append]
              omega
            obtain ⟨text, left, rfl, stops⟩ := ih after.length shorter after rfl
            refine ⟨c :: text, left, ?_, stops⟩
            rw [starts, ← List.append_assoc]
            rfl
          · exact ⟨[], first :: bytes, rfl, .inr fails⟩

theorem decode_encode_append (text : List Char) (after : List UInt8) :
    decode (encode text ++ after) = decodeFrom (encode text).length none text.reverse after := by
  rw [decode, decodeFrom_encode, Nat.zero_add, List.append_nil]

/-- **The decoder accepts encoded texts** and nothing else, each as the text it encodes. -/
theorem decode_eq_ok_iff {bytes : List UInt8} {text : List Char} :
    decode bytes = .ok text ↔ bytes = encode text := by
  constructor
  · intro decoded
    obtain ⟨other, after, rfl, rfl | ⟨run, cause, fails⟩⟩ := exists_encode_append bytes
    · rw [List.append_nil] at decoded ⊢
      rw [decode_encode] at decoded
      cases decoded
      rfl
    · rw [decode_encode_append, fails] at decoded
      cases decoded
  · rintro rfl
    exact decode_encode text

/-- The decoder does not fail within an encoded text in front. -/
theorem length_encode_le_of_decode {text : List Char} {after : List UInt8} {fault : Fault}
    (failed : decode (encode text ++ after) = .error fault) :
    (encode text).length ≤ fault.offset := by
  obtain ⟨more, left, rfl, rfl | ⟨run, cause, fails⟩⟩ := exists_encode_append after
  · rw [List.append_nil, ← encode_append, decode_encode] at failed
    cases failed
  · rw [← List.append_assoc, ← encode_append, decode_encode_append, fails] at failed
    cases failed
    rw [encode_append, List.length_append]
    exact Nat.le_add_right _ _

/-- How long the longest part in front of some bytes is that encodes a text. -/
structure IsLongestText (bytes : List UInt8) (length : Nat) : Prop where
  reached : ∃ text : String, text.toUTF8.data.toList <+: bytes ∧ text.utf8ByteSize = length
  longest : ∀ text : String, text.toUTF8.data.toList <+: bytes → text.utf8ByteSize ≤ length

theorem utf8ByteSize_eq (text : String) : text.utf8ByteSize = (encode text.toList).length := by
  rw [encode_eq_toUTF8]
  rfl

/-- **The decoder fails behind the longest text**, whatever comes after it. -/
theorem isLongestText_of_decode {bytes : List UInt8} {fault : Fault}
    (failed : decode bytes = .error fault) : IsLongestText bytes fault.offset := by
  constructor
  · obtain ⟨text, after, rfl, rfl | ⟨run, cause, fails⟩⟩ := exists_encode_append bytes
    · rw [List.append_nil, decode_encode] at failed
      cases failed
    · rw [decode_encode_append, fails] at failed
      cases failed
      refine ⟨String.ofList text, ?_, ?_⟩
      · rw [← encode_eq_toUTF8, String.toList_ofList]
        exact List.prefix_append _ _
      · rw [utf8ByteSize_eq, String.toList_ofList]
  · rintro text ⟨after, rfl⟩
    rw [← encode_eq_toUTF8] at failed
    rw [utf8ByteSize_eq]
    exact length_encode_le_of_decode failed

end LoxLexer.Text.Utf8
