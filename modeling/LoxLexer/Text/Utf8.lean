/-
# LoxLexer.Text.Utf8 -- strict UTF-8, with the place and cause of a failure

`Utf8.encode` writes each character as one to four bytes; `Utf8.decode` reads
exactly what `encode` writes.  The decoder goes byte by byte.  Between
characters it owes nothing; after the first byte of a longer sequence it owes one
to three more (`Owed`), and it restricts the very next of them where a sequence
could otherwise be overlong, a surrogate or above U+10FFFF.

The first byte that no valid text can hold there ends the decoding with a
`Fault`, which tells where the unfinished sequence starts, which of its bytes
were still possible, and why the text fails.
-/
import LoxLexer.Text.Hex

namespace LoxLexer.Text.Utf8

set_option autoImplicit false

/-! ## Writing -/

/-- The last six bits of `value` as a byte that continues a sequence. -/
def tail (value : Nat) : UInt8 := UInt8.ofNat (0x80 + value % 64)

/-- The bytes of one character. -/
def encodeChar (c : Char) : List UInt8 :=
  let value := c.toNat
  if value < 0x80 then [UInt8.ofNat value]
  else if value < 0x800 then [UInt8.ofNat (0xC0 + value / 64), tail value]
  else if value < 0x10000 then
    [UInt8.ofNat (0xE0 + value / 4096), tail (value / 64), tail value]
  else
    [UInt8.ofNat (0xF0 + value / 262144), tail (value / 4096), tail (value / 64), tail value]

/-- The bytes of a text. -/
def encode (text : List Char) : List UInt8 := text.flatMap encodeChar

/-! ## Reading -/

/-- Why bytes are no UTF-8. -/
inductive Cause where
  /-- No sequence starts with this byte. -/
  | start
  /-- The sequence so far does not go on with this byte. -/
  | continuation
  /-- The bytes end within a sequence. -/
  | truncated
  deriving DecidableEq

/-- A failure to decode: the offset of the sequence that fails, its bytes up to
the failure (all of them possible, or the one impossible first byte), and why. -/
structure Fault where
  offset : Nat
  run : List UInt8
  cause : Cause
  deriving DecidableEq

/-- A cause in words. -/
def Cause.message : Cause → String
  | .start => "invalid start byte"
  | .continuation => "invalid continuation byte"
  | .truncated => "unexpected end of data"

/-- Which bytes of a text fail: one by its value, more by the range they take. -/
def Fault.place (fault : Fault) : String :=
  match fault.run with
  | [byte] =>
      "byte 0x" ++ String.ofList (hex 2 byte.toNat) ++ " in position " ++ toString fault.offset
  | run =>
      "bytes in position " ++ toString fault.offset ++ "-" ++
        toString (fault.offset + run.length - 1)

/-- A failure to decode, in words. -/
def Fault.message (fault : Fault) : String :=
  "'utf-8' codec can't decode " ++ fault.place ++ ": " ++ fault.cause.message

/-- What is still to come of a sequence under way: how many bytes, between which
bounds the next of them lies, and the value and the bytes so far. -/
structure Owed where
  count : Nat
  low : Nat
  high : Nat
  value : Nat
  run : List UInt8

/-- What the first byte of a longer sequence promises. -/
def owedAfter? (first : UInt8) : Option Owed :=
  let byte := first.toNat
  if 0xC2 ≤ byte ∧ byte ≤ 0xDF then some ⟨1, 0x80, 0xBF, byte - 0xC0, [first]⟩
  else if byte = 0xE0 then some ⟨2, 0xA0, 0xBF, 0, [first]⟩
  else if byte = 0xED then some ⟨2, 0x80, 0x9F, 0xD, [first]⟩
  else if 0xE1 ≤ byte ∧ byte ≤ 0xEF then some ⟨2, 0x80, 0xBF, byte - 0xE0, [first]⟩
  else if byte = 0xF0 then some ⟨3, 0x90, 0xBF, 0, [first]⟩
  else if 0xF1 ≤ byte ∧ byte ≤ 0xF3 then some ⟨3, 0x80, 0xBF, byte - 0xF0, [first]⟩
  else if byte = 0xF4 then some ⟨3, 0x80, 0x8F, 4, [first]⟩
  else none

/-- What is owed after one more byte, without the bounds of the first one. -/
def Owed.take (owed : Owed) (byte : UInt8) : Owed :=
  ⟨owed.count - 1, 0x80, 0xBF, owed.value * 64 + byte.toNat % 64, owed.run ++ [byte]⟩

/-- Decodes the bytes from `offset` on.  `owed` is the sequence under way, which
starts at `offset` less its run, and `done` holds the characters before it, the
last one first. -/
def decodeFrom (offset : Nat) (owed : Option Owed) (done : List Char) :
    List UInt8 → Except Fault (List Char)
  | [] =>
      match owed with
      | none => .ok done.reverse
      | some under => .error ⟨offset - under.run.length, under.run, .truncated⟩
  | byte :: bytes =>
      match owed with
      | none =>
          if byte.toNat < 0x80 then
            decodeFrom (offset + 1) none (Char.ofNat byte.toNat :: done) bytes
          else
            match owedAfter? byte with
            | some under => decodeFrom (offset + 1) (some under) done bytes
            | none => .error ⟨offset, [byte], .start⟩
      | some under =>
          if under.low ≤ byte.toNat ∧ byte.toNat ≤ under.high then
            let after := under.take byte
            if after.count = 0 then
              decodeFrom (offset + 1) none (Char.ofNat after.value :: done) bytes
            else decodeFrom (offset + 1) (some after) done bytes
          else .error ⟨offset - under.run.length, under.run, .continuation⟩

/-- The text that these bytes encode, or the first place where they encode none. -/
def decode (bytes : List UInt8) : Except Fault (List Char) := decodeFrom 0 none [] bytes

end LoxLexer.Text.Utf8
