import Secp256k1.Error
import Secp256k1.Hex
import Secp256k1.U512

/-!
Bytes and text of 256-bit integers, most significant digit first.

Reading text is lenient: one to 64 digits of either case, with or without a `0x`. Writing has
one form, 64 upper-case digits, and a tag around it where the text is meant for a person.
-/

namespace Secp256k1

namespace U256

/-- The integer with the given big-endian bytes, modulo `2 ^ 256`. -/
def ofBytes (bytes : List UInt8) : U256 :=
  bytes.foldl (fun a b => appendDigit 256 a b.toUInt64) zero

/-- As `ofBytes`, for 32 bytes only. -/
def ofBytes? (bytes : List UInt8) : Except Error U256 := do
  requireLength "U256::from_be_slice" bytes.length 32
  return ofBytes bytes

/-- The 32 big-endian bytes: byte `i` has the weight `256 ^ (31 - i)`. -/
def toBytes (a : U256) : Vector UInt8 32 :=
  Vector.ofFn fun i => Word.byte (a.word (3 - i.val / 8)) (7 - i.val % 8)

/-- The integer with the given hexadecimal digits. The position of a character that is no digit
counts from the left of the 64 places that a full number has. -/
def ofHex (text : String) : Except Error U256 := do
  let places := Hex.dropMark text.toUTF8.toList
  requireParameter (!places.isEmpty && places.length ≤ 64) "U256::from_hex"
    "expected between 1 and 64 hex digits"
  match Hex.digits (64 - places.length) places with
  | .ok ds => return ds.foldl (fun a d => appendDigit 16 a d.toUInt64) zero
  | .error (b, i) =>
    throw (.invalidParameter "U256::from_hex"
      ("Invalid character " ++ Hex.quoteByte b ++ " at position " ++ toString i))

/-- 64 upper-case digits. -/
def toHex (a : U256) : String := Hex.encodeUpper a.toBytes.toList

/-- 64 lower-case digits. -/
def toHexLower (a : U256) : String := Hex.encodeLower a.toBytes.toList

/-- The tagged text. -/
def describe (a : U256) : String := "U256(0x" ++ a.toHex ++ ")"

end U256

/-- The tagged text, the high half first. -/
def U512.describe (a : U512) : String := "U512(0x" ++ a.hi.toHex ++ a.lo.toHex ++ ")"

end Secp256k1
