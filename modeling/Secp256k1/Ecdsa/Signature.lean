import Secp256k1.Scalar

/-!
Signatures and recovery ids.

A signature is a pair of integers, of any size until it is validated. Negating `s` modulo the
group order gives a signature with the same verdict; the one with the smaller `s` is called
canonical.
-/

namespace Secp256k1

structure Signature where
  r : U256
  s : U256
  deriving DecidableEq, Inhabited

namespace Signature

/-- Both components have to be in `[1, n - 1]`. -/
def validate (g : Signature) : Except Error Unit := do
  require (!g.r.isZero && orderModulus.contains g.r)
    (.invalidSignature "Signature::validate" "r is outside [1, n - 1]")
  require (!g.s.isZero && orderModulus.contains g.s)
    (.invalidSignature "Signature::validate" "s is outside [1, n - 1]")

/-- Whether `s` is at most half the group order. -/
def isCanonical (g : Signature) : Bool := g.s.le halfOrder

/-- The signature with `n - s` for an `s` that is not canonical. -/
def normalize (g : Signature) : Signature :=
  if g.isCanonical then g else { g with s := orderModulus.neg g.s }

/-- Both components, 32 big-endian bytes each. -/
def toBytes (g : Signature) : List UInt8 := g.r.toBytes.toList ++ g.s.toBytes.toList

/-- The signature with the given 64 bytes. -/
def ofBytes (bytes : List UInt8) : Except Error Signature := do
  requireLength "Signature::from_bytes" bytes.length Parameters.signatureSize
  let r ← U256.ofBytes? (bytes.take Parameters.scalarSize)
  let s ← U256.ofBytes? (bytes.drop Parameters.scalarSize)
  return ⟨r, s⟩

/-- The text of both components. -/
def describe (g : Signature) : String :=
  "Signature \x7b r: " ++ g.r.describe ++ ", s: " ++ g.s.describe ++ " \x7d"

end Signature

/-- Which of the points that go with a signature is its nonce point: of the abscissas `r` and
`r + n`, and of the two points with that abscissa. -/
structure RecoveryId where
  yIsOdd : Bool
  /-- The abscissa is `r + n`. -/
  xIsReduced : Bool
  deriving DecidableEq, Inhabited

namespace RecoveryId

/-- Bit 0 is the parity of `y`, and bit 1 says that `x` was reduced. -/
def toByte (i : RecoveryId) : UInt8 := i.yIsOdd.toUInt8 + 2 * i.xIsReduced.toUInt8

def ofByte (b : UInt8) : Except Error RecoveryId := do
  requireParameter (b ≤ 3) "RecoveryId::from_byte" "recovery id must be 0..=3"
  return ⟨b &&& 1 == 1, b &&& 2 == 2⟩

/-- The id of the opposite nonce point. -/
def flip (i : RecoveryId) : RecoveryId := { i with yIsOdd := !i.yIsOdd }

end RecoveryId

end Secp256k1
