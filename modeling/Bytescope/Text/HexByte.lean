import Bytescope.Error
import Bytescope.Text.Blank

/-!
# Bytes in hexadecimal

A byte is written as one or two hexadecimal digits in either case. It may stand between blank
characters and after one radix mark `0x` or `0X`, and in place of the first of two digits there
may be a plus sign.

## Main definitions

* `Text.hexDigit?`: the value of a digit.
* `Text.readHexByte`: the value of a written byte, or what is wrong with it.
-/

namespace Bytescope.Text

/-- The value of a hexadecimal digit in either case. -/
def hexDigit? (c : Char) : Option Nat :=
  if '0' ≤ c ∧ c ≤ '9' then some (c.toNat - 48)
  else if 'a' ≤ c ∧ c ≤ 'f' then some (c.toNat - 87)
  else if 'A' ≤ c ∧ c ≤ 'F' then some (c.toNat - 55)
  else none

/-- Leaves out one radix mark. -/
def dropRadixMark : List Char → List Char
  | '0' :: 'x' :: rest => rest
  | '0' :: 'X' :: rest => rest
  | cs => cs

/-- Bytes that a text takes in UTF-8. -/
def utf8Length : List Char → Nat
  | [] => 0
  | c :: rest => c.utf8Size + utf8Length rest

/-- The value of one or two digits, the first of two possibly being a plus sign. -/
def hexValue? : List Char → Option UInt8
  | [c] => (hexDigit? c).map UInt8.ofNat
  | [high, low] =>
    if high = '+' then (hexDigit? low).map UInt8.ofNat
    else do
      let high ← hexDigit? high
      let low ← hexDigit? low
      return UInt8.ofNat (16 * high + low)
  | _ => none

/-- The value of a written byte, or what is wrong with it. What remains after the radix mark
must take one or two bytes in UTF-8. -/
def readHexByte (cs : List Char) : Except TokenFault UInt8 :=
  let digits := dropRadixMark (trim cs)
  if utf8Length digits = 0 ∨ 2 < utf8Length digits then .error .digitCount
  else
    match hexValue? digits with
    | some byte => .ok byte
    | none => .error .notHexadecimal

end Bytescope.Text
