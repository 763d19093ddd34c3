/-
# LoxLexer.Text.Utf16 -- characters as UTF-16 units

A character up to U+FFFF is one unit, its number; one above is two, a high surrogate with
the upper ten bits of what it exceeds U+FFFF by and a low surrogate with the lower ten.
No character has the number of a surrogate, so units are read back without doubt:
`decode_encode`.
-/
namespace LoxLexer.Text.Utf16

set_option autoImplicit false

/-- The units of a character. -/
def encodeChar (c : Char) : List Nat :=
  if c.toNat < 0x10000 then [c.toNat]
  else [0xD800 + (c.toNat - 0x10000) / 0x400, 0xDC00 + (c.toNat - 0x10000) % 0x400]

/-- The units of a text. -/
def encode (text : List Char) : List Nat := text.flatMap encodeChar

def isHigh (unit : Nat) : Bool := 0xD800 ≤ unit && unit < 0xDC00

def isLow (unit : Nat) : Bool := 0xDC00 ≤ unit && unit < 0xE000

/-- The text of units after a high surrogate, if one is open.  A surrogate without its
other half makes no text. -/
def decodeFrom (high : Option Nat) : List Nat → Option (List Char)
  | [] => if high.isNone then some [] else none
  | unit :: units =>
      match high with
      | none =>
          if isHigh unit then decodeFrom (some unit) units
          else if isLow unit then none
          else (decodeFrom none units).map (Char.ofNat unit :: ·)
      | some high =>
          if isLow unit then
            (decodeFrom none units).map
              (Char.ofNat (0x10000 + (high - 0xD800) * 0x400 + (unit - 0xDC00)) :: ·)
          else none

/-- The text of units. -/
def decode (units : List Nat) : Option (List Char) := decodeFrom none units

@[simp] theorem decodeFrom_encodeChar (c : Char) (units : List Nat) :
    decodeFrom none (encodeChar c ++ units) = (decodeFrom none units).map (c :: ·) := by
  unfold encodeChar
  split
  · have valid : c.toNat < 0xD800 ∨ 0xDFFF < c.toNat ∧ c.toNat < 0x110000 := c.valid
    have notHigh : isHigh c.toNat = false := by
      simp only [isHigh, Bool.and_eq_false_iff, decide_eq_false_iff_not]
      omega
    have notLow : isLow c.toNat = false := by
      simp only [isLow, Bool.and_eq_false_iff, decide_eq_false_iff_not]
      omega
    simp [decodeFrom, notHigh, notLow]
  · rename_i above
    have valid : c.toNat < 0xD800 ∨ 0xDFFF < c.toNat ∧ c.toNat < 0x110000 := c.valid
    have high : isHigh (0xD800 + (c.toNat - 0x10000) / 0x400) = true := by
      simp only [isHigh, Bool.and_eq_true, decide_eq_true_eq]
      omega
    have low : isLow (0xDC00 + (c.toNat - 0x10000) % 0x400) = true := by
      simp only [isLow, Bool.and_eq_true, decide_eq_true_eq]
      omega
    have value : 0x10000 + (0xD800 + (c.toNat - 0x10000) / 0x400 - 0xD800) * 0x400 +
        (0xDC00 + (c.toNat - 0x10000) % 0x400 - 0xDC00) = c.toNat := by
      omega
    simp only [List.cons_append, List.nil_append, decodeFrom, high, low, if_true, value,
      Char.ofNat_toNat]

/-- The units of a text are read as the text. -/
@[simp] theorem decode_encode (text : List Char) : decode (encode text) = some text := by
  induction text with
  | nil => rfl
  | cons c rest ih =>
      have read : decodeFrom none (encode rest) = some rest := ih
      show decodeFrom none (encodeChar c ++ encode rest) = _
      rw [decodeFrom_encodeChar, read, Option.map_some]

end LoxLexer.Text.Utf16
