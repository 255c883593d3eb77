/-!
# Bytes read as text

Bytes are read as UTF-8. Where they are not well formed, the longest beginning of a character
that the bytes do form is replaced by one replacement character, and so is every byte that
begins no character.

## Main definitions

* `Text.decodeLossy`: the text of any bytes.
-/

namespace Bytescope.Text

/-- The character that stands for what cannot be read. -/
def replacement : Char := '\uFFFD'

/-- A character that has begun: its value so far, the number of bytes still to come, and the
range in which the next one has to lie. -/
structure Begun where
  /-- The value of the bits read so far. -/
  value : Nat
  /-- Bytes to come after the next one. -/
  rest : Nat
  /-- Lowest next byte. -/
  low : Nat
  /-- Highest next byte. -/
  high : Nat

/-- What a first byte amounts to. -/
inductive Lead
  /-- A whole character. -/
  | whole (c : Char)
  /-- The beginning of one. -/
  | begun (b : Begun)
  /-- Nothing. -/
  | broken

/-- The beginning of a character by its first byte. The ranges of the second byte leave out
overlong forms, surrogates and what lies beyond the last code point. -/
def lead (n : Nat) : Lead :=
  if n < 0x80 then .whole (Char.ofNat n)
  else if n < 0xC2 then .broken
  else if n < 0xE0 then .begun ⟨n - 0xC0, 0, 0x80, 0xBF⟩
  else if n < 0xF0 then
    .begun ⟨n - 0xE0, 1, if n = 0xE0 then 0xA0 else 0x80, if n = 0xED then 0x9F else 0xBF⟩
  else if n < 0xF5 then
    .begun ⟨n - 0xF0, 2, if n = 0xF0 then 0x90 else 0x80, if n = 0xF4 then 0x8F else 0xBF⟩
  else .broken

/-- Reads bytes after those of a character that may have begun. -/
def decodeFrom : Option Begun → List UInt8 → List Char
  | none, [] => []
  | some _, [] => [replacement]
  | none, byte :: rest =>
    match lead byte.toNat with
    | .whole c => c :: decodeFrom none rest
    | .begun b => decodeFrom (some b) rest
    | .broken => replacement :: decodeFrom none rest
  | some b, byte :: rest =>
    if b.low ≤ byte.toNat ∧ byte.toNat ≤ b.high then
      let value := 64 * b.value + byte.toNat % 64
      match b.rest with
      | 0 => Char.ofNat value :: decodeFrom none rest
      | more + 1 => decodeFrom (some ⟨value, more, 0x80, 0xBF⟩) rest
    else
      match lead byte.toNat with
      | .whole c => replacement :: c :: decodeFrom none rest
      | .begun b => replacement :: decodeFrom (some b) rest
      | .broken => replacement :: replacement :: decodeFrom none rest

/-- The text of bytes. -/
def decodeLossy (bytes : List UInt8) : List Char := decodeFrom none bytes

end Bytescope.Text
