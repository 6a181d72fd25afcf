import Secp256k1.Word

/-!
Unsigned integers of 256 bits.

A value is four words, the least significant first, and `toNat` is what it stands for. Sums and
differences pass a carry or a borrow from word to word; a product is built row by row, each row
adding one word times the other factor to what is there already.
-/

namespace Secp256k1

structure U256 where
  w0 : UInt64
  w1 : UInt64
  w2 : UInt64
  w3 : UInt64
  deriving DecidableEq, Inhabited

namespace U256

/-- The width in bits. -/
def width : Nat := 256

def zero : U256 := ⟨0, 0, 0, 0⟩

def one : U256 := ⟨1, 0, 0, 0⟩

def ofWord (w : UInt64) : U256 := ⟨w, 0, 0, 0⟩

/-- The integer that the words stand for, as digits in the base `UInt64.size`. -/
def toNat (a : U256) : Nat :=
  a.w0.toNat + UInt64.size * (a.w1.toNat + UInt64.size * (a.w2.toNat + UInt64.size * a.w3.toNat))

/-- The number of values, `2 ^ 256`. -/
def size : Nat := UInt64.size * UInt64.size * UInt64.size * UInt64.size

def words (a : U256) : List UInt64 := [a.w0, a.w1, a.w2, a.w3]

/-- Word `i`, and zero past the top word. -/
def word (a : U256) : Nat → UInt64
  | 0 => a.w0
  | 1 => a.w1
  | 2 => a.w2
  | 3 => a.w3
  | _ => 0

@[inline] def isZero (a : U256) : Bool := a.w0 == 0 && a.w1 == 0 && a.w2 == 0 && a.w3 == 0

@[inline] def isOdd (a : U256) : Bool := a.w0 &&& 1 == 1

/-- Bit `i`, and false past the top bit. -/
def bit (a : U256) (i : Nat) : Bool := decide (i < width) && Word.bit (a.word (i / 64)) (i % 64)

/-- The number of bits up to the highest one that is set, 0 for zero. -/
def bitLength (a : U256) : Nat :=
  if a.w3 != 0 then 192 + Word.bitLength a.w3
  else if a.w2 != 0 then 128 + Word.bitLength a.w2
  else if a.w1 != 0 then 64 + Word.bitLength a.w1
  else Word.bitLength a.w0

/-! ### Sums and differences -/

/-- `a + b + carry` without its top bit, and that bit. -/
@[inline] def addCarry (a b : U256) (carry : Bool) : U256 × Bool :=
  let s0 := Word.addCarry a.w0 b.w0 carry
  let s1 := Word.addCarry a.w1 b.w1 s0.2
  let s2 := Word.addCarry a.w2 b.w2 s1.2
  let s3 := Word.addCarry a.w3 b.w3 s2.2
  (⟨s0.1, s1.1, s2.1, s3.1⟩, s3.2)

/-- `a - b - borrow` modulo `2 ^ 256`, and whether it fell below zero. -/
@[inline] def subBorrow (a b : U256) (borrow : Bool) : U256 × Bool :=
  let d0 := Word.subBorrow a.w0 b.w0 borrow
  let d1 := Word.subBorrow a.w1 b.w1 d0.2
  let d2 := Word.subBorrow a.w2 b.w2 d1.2
  let d3 := Word.subBorrow a.w3 b.w3 d2.2
  (⟨d0.1, d1.1, d2.1, d3.1⟩, d3.2)

/-- The sum modulo `2 ^ 256`, and the carry out of the top bit. -/
def overflowingAdd (a b : U256) : U256 × Bool := addCarry a b false

/-- The difference modulo `2 ^ 256`, and the borrow. -/
def overflowingSub (a b : U256) : U256 × Bool := subBorrow a b false

def wrappingAdd (a b : U256) : U256 := (addCarry a b false).1

def wrappingSub (a b : U256) : U256 := (subBorrow a b false).1

/-- `2 ^ 256 - a`, and zero for zero. -/
def wrappingNeg (a : U256) : U256 := wrappingSub zero a

/-- Half of `a`, rounded down. -/
def shiftRight1 (a : U256) : U256 :=
  ⟨(a.w0 >>> 1) ||| (a.w1 <<< 63), (a.w1 >>> 1) ||| (a.w2 <<< 63),
    (a.w2 >>> 1) ||| (a.w3 <<< 63), a.w3 >>> 1⟩

/-! ### Order -/

/-- Comparison from the most significant word down. -/
protected def compare (a b : U256) : Ordering :=
  (compare a.w3 b.w3).then <| (compare a.w2 b.w2).then <|
    (compare a.w1 b.w1).then (compare a.w0 b.w0)

instance : Ord U256 := ⟨U256.compare⟩

/-- `a < b`, read off the borrow of `a - b`. -/
@[inline] def lt (a b : U256) : Bool := (subBorrow a b false).2

@[inline] def le (a b : U256) : Bool := !lt b a

/-! ### Products -/

/-- One row of a product: `a * b + acc`, its low four words and the word above them. -/
@[inline] def mulRow (a : UInt64) (b acc : U256) : U256 × UInt64 :=
  let t0 := Word.mulAdd a b.w0 acc.w0 0
  let t1 := Word.mulAdd a b.w1 acc.w1 t0.2
  let t2 := Word.mulAdd a b.w2 acc.w2 t1.2
  let t3 := Word.mulAdd a b.w3 acc.w3 t2.2
  (⟨t0.1, t1.1, t2.1, t3.1⟩, t3.2)

/-- The number that has the digits of `a` and then `d` in the base `b`, modulo `2 ^ 256`. -/
def appendDigit (b : UInt64) (a : U256) (d : UInt64) : U256 := (mulRow b a (ofWord d)).1

/-! ### Selection -/

/-- `b` if `choice` is set, else `a`. -/
@[inline] def select (a b : U256) (choice : Bool) : U256 := if choice then b else a

/-! ### Values -/

theorem toNat_lt (a : U256) : a.toNat < size := by
  have h0 := a.w0.toNat_lt
  have h1 := a.w1.toNat_lt
  have h2 := a.w2.toNat_lt
  have h3 := a.w3.toNat_lt
  simp only [toNat, size, UInt64.size]
  omega

theorem toNat_inj {a b : U256} (h : a.toNat = b.toNat) : a = b := by
  have a0 := a.w0.toNat_lt; have a1 := a.w1.toNat_lt; have a2 := a.w2.toNat_lt
  have b0 := b.w0.toNat_lt; have b1 := b.w1.toNat_lt; have b2 := b.w2.toNat_lt
  obtain ⟨x0, x1, x2, x3⟩ := a
  obtain ⟨y0, y1, y2, y3⟩ := b
  simp only [toNat, UInt64.size, U256.mk.injEq, ← UInt64.toNat_inj] at *
  omega

theorem toNat_addCarry (a b : U256) (carry : Bool) :
    (addCarry a b carry).1.toNat + size * (addCarry a b carry).2.toNat =
      a.toNat + b.toNat + carry.toNat := by
  have h0 := Word.toNat_addCarry a.w0 b.w0 carry
  have h1 := Word.toNat_addCarry a.w1 b.w1 (Word.addCarry a.w0 b.w0 carry).2
  have h2 := Word.toNat_addCarry a.w2 b.w2
    (Word.addCarry a.w1 b.w1 (Word.addCarry a.w0 b.w0 carry).2).2
  have h3 := Word.toNat_addCarry a.w3 b.w3
    (Word.addCarry a.w2 b.w2 (Word.addCarry a.w1 b.w1 (Word.addCarry a.w0 b.w0 carry).2).2).2
  simp only [addCarry, toNat, size, UInt64.size] at *
  omega

theorem toNat_subBorrow (a b : U256) (borrow : Bool) :
    (subBorrow a b borrow).1.toNat + b.toNat + borrow.toNat =
      a.toNat + size * (subBorrow a b borrow).2.toNat := by
  have h0 := Word.toNat_subBorrow a.w0 b.w0 borrow
  have h1 := Word.toNat_subBorrow a.w1 b.w1 (Word.subBorrow a.w0 b.w0 borrow).2
  have h2 := Word.toNat_subBorrow a.w2 b.w2
    (Word.subBorrow a.w1 b.w1 (Word.subBorrow a.w0 b.w0 borrow).2).2
  have h3 := Word.toNat_subBorrow a.w3 b.w3
    (Word.subBorrow a.w2 b.w2 (Word.subBorrow a.w1 b.w1 (Word.subBorrow a.w0 b.w0 borrow).2).2).2
  simp only [subBorrow, toNat, size, UInt64.size] at *
  omega

theorem toNat_mulRow (a : UInt64) (b acc : U256) :
    (mulRow a b acc).1.toNat + size * (mulRow a b acc).2.toNat =
      a.toNat * b.toNat + acc.toNat := by
  have h0 := Word.toNat_mulAdd a b.w0 acc.w0 0
  have h1 := Word.toNat_mulAdd a b.w1 acc.w1 (Word.mulAdd a b.w0 acc.w0 0).2
  have h2 := Word.toNat_mulAdd a b.w2 acc.w2
    (Word.mulAdd a b.w1 acc.w1 (Word.mulAdd a b.w0 acc.w0 0).2).2
  have h3 := Word.toNat_mulAdd a b.w3 acc.w3
    (Word.mulAdd a b.w2 acc.w2 (Word.mulAdd a b.w1 acc.w1 (Word.mulAdd a b.w0 acc.w0 0).2).2).2
  simp only [mulRow, toNat, size, UInt64.size, Nat.mul_add, Nat.mul_left_comm a.toNat,
    UInt64.toNat_zero] at *
  omega

/-- The borrow tells which of two integers is the smaller one. -/
theorem lt_eq_decide (a b : U256) : lt a b = decide (a.toNat < b.toNat) := by
  have h := toNat_subBorrow a b false
  have h1 := toNat_lt (subBorrow a b false).1
  have hb := toNat_lt b
  rw [lt]
  cases e : (subBorrow a b false).2 <;> rw [e] at h <;> simp at h ⊢ <;> omega

end U256

end Secp256k1
