import Secp256k1.U256.Basic

/-!
Unsigned integers of 512 bits.

A value is a low and a high half. It holds the product of two 256-bit integers, or a scalar to
which a multiple of the group order has been added.
-/

namespace Secp256k1

structure U512 where
  lo : U256
  hi : U256
  deriving DecidableEq, Inhabited

namespace U512

/-- The width in bits. -/
def width : Nat := 512

def zero : U512 := ⟨.zero, .zero⟩

/-- The same integer in twice the width. -/
def ofU256 (a : U256) : U512 := ⟨a, .zero⟩

def toNat (a : U512) : Nat := a.lo.toNat + U256.size * a.hi.toNat

/-- Word `i`, the least significant first, and zero past the top word. -/
def word (a : U512) (i : Nat) : UInt64 := if i < 4 then a.lo.word i else a.hi.word (i - 4)

@[inline] def isZero (a : U512) : Bool := a.lo.isZero && a.hi.isZero

@[inline] def isOdd (a : U512) : Bool := a.lo.isOdd

/-- Bit `i`, and false past the top bit. -/
def bit (a : U512) (i : Nat) : Bool := if i < 256 then a.lo.bit i else a.hi.bit (i - 256)

/-- The number of bits up to the highest one that is set, 0 for zero. -/
def bitLength (a : U512) : Nat :=
  if a.hi.isZero then a.lo.bitLength else 256 + a.hi.bitLength

/-- The sum modulo `2 ^ 512`. -/
def wrappingAdd (a b : U512) : U512 :=
  let lo := U256.addCarry a.lo b.lo false
  ⟨lo.1, (U256.addCarry a.hi b.hi lo.2).1⟩

/-- `a + w` modulo `2 ^ 512`. -/
def wrappingAddWord (a : U512) (w : UInt64) : U512 := wrappingAdd a (ofU256 (.ofWord w))

/-- `a - w` modulo `2 ^ 512`. -/
def wrappingSubWord (a : U512) (w : UInt64) : U512 :=
  let lo := U256.subBorrow a.lo (.ofWord w) false
  ⟨lo.1, (U256.subBorrow a.hi .zero lo.2).1⟩

/-- Half of `a`, rounded down. -/
def shiftRight1 (a : U512) : U512 :=
  ⟨{ a.lo.shiftRight1 with w3 := (a.lo.w3 >>> 1) ||| (a.hi.w0 <<< 63) }, a.hi.shiftRight1⟩

end U512

/-- The full product of two 256-bit integers. Row `i` fixes word `i` of the product and hands
the words above it to the next row. -/
def U256.mulWide (a b : U256) : U512 :=
  let r0 := mulRow a.w0 b .zero
  let r1 := mulRow a.w1 b ⟨r0.1.w1, r0.1.w2, r0.1.w3, r0.2⟩
  let r2 := mulRow a.w2 b ⟨r1.1.w1, r1.1.w2, r1.1.w3, r1.2⟩
  let r3 := mulRow a.w3 b ⟨r2.1.w1, r2.1.w2, r2.1.w3, r2.2⟩
  ⟨⟨r0.1.w0, r1.1.w0, r2.1.w0, r3.1.w0⟩, ⟨r3.1.w1, r3.1.w2, r3.1.w3, r3.2⟩⟩

/-- Nothing is lost in a product: each row carries into the next one. -/
theorem U512.toNat_mulWide (a b : U256) : (a.mulWide b).toNat = a.toNat * b.toNat := by
  simp only [U256.mulWide]
  generalize e0 : U256.mulRow a.w0 b .zero = r0
  generalize e1 : U256.mulRow a.w1 b ⟨r0.1.w1, r0.1.w2, r0.1.w3, r0.2⟩ = r1
  generalize e2 : U256.mulRow a.w2 b ⟨r1.1.w1, r1.1.w2, r1.1.w3, r1.2⟩ = r2
  generalize e3 : U256.mulRow a.w3 b ⟨r2.1.w1, r2.1.w2, r2.1.w3, r2.2⟩ = r3
  have h0 := e0 ▸ U256.toNat_mulRow a.w0 b .zero
  have h1 := e1 ▸ U256.toNat_mulRow a.w1 b ⟨r0.1.w1, r0.1.w2, r0.1.w3, r0.2⟩
  have h2 := e2 ▸ U256.toNat_mulRow a.w2 b ⟨r1.1.w1, r1.1.w2, r1.1.w3, r1.2⟩
  have h3 := e3 ▸ U256.toNat_mulRow a.w3 b ⟨r2.1.w1, r2.1.w2, r2.1.w3, r2.2⟩
  have ha : a.toNat * b.toNat = a.w0.toNat * b.toNat + UInt64.size * (a.w1.toNat * b.toNat +
      UInt64.size * (a.w2.toNat * b.toNat + UInt64.size * (a.w3.toNat * b.toNat))) := by
    simp only [U256.toNat]
    grind
  rw [ha]
  generalize b.toNat = n at *
  simp only [U512.toNat, U256.toNat, U256.zero, U256.size, UInt64.size, UInt64.reduceToNat] at *
  omega

end Secp256k1
