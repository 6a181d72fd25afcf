import Secp256k1.U256.Basic

/-!
The numbers that define the curve, the sizes of its encodings, and the default settings.

The curve is `y² = x³ + 7` over the integers modulo `prime`. Its points form a group of prime
order `order`, generated by the point with the coordinates `generatorX` and `generatorY`. Words
are listed from the least significant one.
-/

namespace Secp256k1.Parameters

/-- `2 ^ 256 - 2 ^ 32 - 977`. -/
def prime : U256 :=
  ⟨0xFFFFFFFEFFFFFC2F, 0xFFFFFFFFFFFFFFFF, 0xFFFFFFFFFFFFFFFF, 0xFFFFFFFFFFFFFFFF⟩

/-- The number of points of the curve. -/
def order : U256 :=
  ⟨0xBFD25E8CD0364141, 0xBAAEDCE6AF48A03B, 0xFFFFFFFFFFFFFFFE, 0xFFFFFFFFFFFFFFFF⟩

def generatorX : U256 :=
  ⟨0x59F2815B16F81798, 0x029BFCDB2DCE28D9, 0x55A06295CE870B07, 0x79BE667EF9DCBBAC⟩

def generatorY : U256 :=
  ⟨0x9C47D08FFB10D4B8, 0xFD17B448A6855419, 0x5DA4FBFC0E1108A8, 0x483ADA7726A3C465⟩

/-- The coefficient of `x`. -/
def a : UInt64 := 0

/-- The constant term. -/
def b : UInt64 := 7

/-- The index of the subgroup that the generator spans. -/
def cofactor : UInt64 := 1

/-! ### Sizes, in bytes -/

def fieldElementSize : Nat := 32

def scalarSize : Nat := 32

/-- One tag and two coordinates. -/
def uncompressedSize : Nat := 1 + 2 * fieldElementSize

/-- One tag and one coordinate. -/
def compressedSize : Nat := 1 + fieldElementSize

def signatureSize : Nat := 2 * scalarSize

/-! ### Settings -/

/-- The smallest window of a table of odd multiples. -/
def minWindow : Nat := 2

/-- The largest window of a table of odd multiples. -/
def maxWindow : Nat := 8

def defaultWindow : Nat := 4

/-- The slots of a point cache. -/
def defaultCacheCapacity : Nat := 256

/-- The bound on redraws of nonces and of private keys. -/
def defaultAttempts : Nat := 64

end Secp256k1.Parameters
