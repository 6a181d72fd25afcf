import Secp256k1.U512

/-!
Integers as strings of bits.

A point can be multiplied by whatever has a bit string: an ordinary scalar of 256 bits, or a
blinded one of 512 bits.
-/

namespace Secp256k1

class BitString (κ : Type) where
  /-- The number of bits that uniform algorithms go through. -/
  width : Nat
  /-- Bit `i`, and false past the width. -/
  bit : κ → Nat → Bool
  /-- The number of bits up to the highest one that is set. -/
  bitLength : κ → Nat
  isZero : κ → Bool
  /-- The same integer in 512 bits. -/
  wide : κ → U512

instance : BitString U256 where
  width := U256.width
  bit := U256.bit
  bitLength := U256.bitLength
  isZero := U256.isZero
  wide := U512.ofU256

instance : BitString U512 where
  width := U512.width
  bit := U512.bit
  bitLength := U512.bitLength
  isZero := U512.isZero
  wide := id

end Secp256k1
