import Secp256k1.BitString

/-!
Signed digits of a scalar.

With a window `w`, an odd value gives the digit between `-2 ^ w` and `2 ^ w` that it is
congruent to modulo `2 ^ (w + 1)`, and an even value gives 0. Taking the digit away leaves an
even value, and half of it has the further digits. So every digit that is not 0 is odd, and at
least `w` zeros follow it.
-/

namespace Secp256k1.SignedDigits

/-- The digit of an odd value, as an integer. -/
def residue (w : Nat) (v : U512) : Int :=
  let modulus : Nat := 1 <<< (w + 1)
  let r := (v.word 0).toNat % modulus
  if r < 1 <<< w then r else (r : Int) - modulus

/-- `v - d` modulo `2 ^ 512`. -/
def takeAway (v : U512) (d : Int) : U512 :=
  if 0 < d then v.wrappingSubWord d.natAbs.toUInt64 else v.wrappingAddWord d.natAbs.toUInt64

/-- The digits of a value, the least significant first, but no more than `fuel`. A digit is
kept in 16 bits, which is enough for windows up to 15. -/
def recode (w : Nat) : Nat → U512 → List Int16
  | 0, _ => []
  | fuel + 1, v =>
    if v.isZero then []
    else if v.isOdd then
      let d := residue w v
      d.toInt16 :: recode w fuel (takeAway v d).shiftRight1
    else 0 :: recode w fuel v.shiftRight1

/-- The digits of a scalar: never more than one beyond its bits. -/
def ofScalar {κ : Type} [BitString κ] (k : κ) (w : Nat) : List Int16 :=
  recode w (BitString.bitLength k + 1) (BitString.wide k)

/-- The integer that a list of digits stands for. -/
def value : List Int16 → Int
  | [] => 0
  | d :: ds => d.toInt + 2 * value ds

end Secp256k1.SignedDigits
