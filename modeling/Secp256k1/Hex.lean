/-!
Hexadecimal text.

Bytes are written as pairs of digits, the high one first. Reading takes either case and, of a
text that is not all digits, reports the first byte that is none together with its position.
-/

namespace Secp256k1.Hex

/-- The value of one digit, given as the byte of its character. -/
def digit? (b : UInt8) : Option UInt8 :=
  if 48 ≤ b ∧ b ≤ 57 then some (b - 48)
  else if 65 ≤ b ∧ b ≤ 70 then some (b - 55)
  else if 97 ≤ b ∧ b ≤ 102 then some (b - 87)
  else none

/-- The digit of a value below 16; `ten` is the character that stands for ten. -/
def digitChar (ten : Char) (v : UInt8) : Char :=
  if v < 10 then Char.ofNat (48 + v.toNat) else Char.ofNat (ten.toNat + v.toNat - 10)

def encodeWith (ten : Char) (bytes : List UInt8) : String :=
  String.ofList
    (bytes.flatMap fun (b : UInt8) => [digitChar ten (b >>> 4), digitChar ten (b &&& 15)])

/-- Upper-case digits. -/
def encodeUpper (bytes : List UInt8) : String := encodeWith 'A' bytes

/-- Lower-case digits. -/
def encodeLower (bytes : List UInt8) : String := encodeWith 'a' bytes

/-- The values of all digits, or the first byte that is no digit and where it stands, counting
from `position`. -/
def digits (position : Nat) : List UInt8 → Except (UInt8 × Nat) (List UInt8)
  | [] => .ok []
  | b :: rest =>
    match digit? b with
    | none => .error (b, position)
    | some v => (digits (position + 1) rest).map (v :: ·)

/-- A text without its `0x` or `0X`; only one such mark is taken away. -/
def dropMark : List UInt8 → List UInt8
  | 48 :: 120 :: rest => rest
  | 48 :: 88 :: rest => rest
  | text => text

/-- The hexadecimal digits of a number, lower case and without leading zeros. -/
def ofNat (n : Nat) : String := String.ofList (Nat.toDigits 16 n)

/-- A byte as a quoted character: the byte is taken as a code point, and what cannot be shown as
itself between single quotes is escaped. -/
def quoteByte (b : UInt8) : String :=
  let body :=
    if b == 0 then "\\0"
    else if b == 9 then "\\t"
    else if b == 10 then "\\n"
    else if b == 13 then "\\r"
    else if b == 39 then "\\'"
    else if b == 92 then "\\\\"
    else if b < 32 || (127 ≤ b && b ≤ 160) || b == 173 then
      "\\u\x7b" ++ ofNat b.toNat ++ "\x7d"
    else String.singleton (Char.ofNat b.toNat)
  "'" ++ body ++ "'"

end Secp256k1.Hex
