import Secp256k1.U256.Codec

/-!
Arithmetic modulo an integer of exactly 256 bits.

Such a modulus `m` is `2 ^ 256 - c`, and `c` is called its complement. A 256-bit integer is at
most one subtraction away from its residue. A 512-bit integer `hi * 2 ^ 256 + lo` is congruent
to `hi * c + lo`, and folding it that way again and again makes its high half vanish.
-/

namespace Secp256k1

structure Modulus where
  value : U256
  complement : U256
  topBit : value.bit 255 = true
  complement_eq : complement = value.wrappingNeg := by rfl
  deriving DecidableEq

namespace Modulus

/-- The modulus of a given value, which has to occupy the full width. -/
def ofU256 (value : U256) : Except Error Modulus :=
  if h : value.bit 255 = true then .ok { value, complement := value.wrappingNeg, topBit := h }
  else .error (.invalidParameter "Modulus::new" "modulus must occupy the full 256 bits")

def ofHex (text : String) : Except Error Modulus := do ofU256 (← U256.ofHex text)

/-- The text of both numbers. -/
def describe (m : Modulus) : String :=
  "Modulus \x7b value: " ++ m.value.describe ++ ", complement: " ++ m.complement.describe ++ " \x7d"

/-- Whether `a` is a residue: an integer below the modulus. -/
@[inline] def contains (m : Modulus) (a : U256) : Bool := a.lt m.value

/-- The residue of a 256-bit integer. -/
def reduce (m : Modulus) (a : U256) : U256 :=
  let d := U256.subBorrow a m.value false
  if d.2 then a else d.1

/-- `hi * c + lo` in place of `hi * 2 ^ 256 + lo`. -/
def fold (m : Modulus) (w : U512) : U512 :=
  (m.complement.mulWide w.hi).wrappingAdd (.ofU256 w.lo)

/-- Fold until the high half is zero, but no more than `fuel` times. -/
def foldAll (m : Modulus) : Nat → U512 → U512
  | 0, w => w
  | fuel + 1, w => if w.hi.isZero then w else foldAll m fuel (m.fold w)

/-- The residue of a 512-bit integer. The complement is at most `2 ^ 255`, so a fold takes a bit
off the high half, and two more folds are enough once the high half is 1. -/
def reduceWide (m : Modulus) (w : U512) : U256 := m.reduce (m.foldAll 258 w).lo

/-- The sum of two residues. -/
def add (m : Modulus) (a b : U256) : U256 :=
  let s := U256.addCarry a b false
  let d := U256.subBorrow s.1 m.value false
  if s.2 || !d.2 then d.1 else s.1

/-- The difference of two residues. -/
def sub (m : Modulus) (a b : U256) : U256 :=
  let d := U256.subBorrow a b false
  if d.2 then d.1.wrappingAdd m.value else d.1

/-- The residue opposite to a residue. -/
def neg (m : Modulus) (a : U256) : U256 := if a.isZero then .zero else m.value.wrappingSub a

/-- The product of any two 256-bit integers, as a residue. -/
def mul (m : Modulus) (a b : U256) : U256 := m.reduceWide (a.mulWide b)

def square (m : Modulus) (a : U256) : U256 := m.mul a a

/-- Square and multiply over the bits below `i`, from the top one down. -/
def powBits (m : Modulus) (base exp : U256) : Nat → U256 → U256
  | 0, acc => acc
  | i + 1, acc =>
    let acc := m.square acc
    powBits m base exp i (if exp.bit i then m.mul acc base else acc)

/-- `base ^ exp`, with 1 for the exponent 0. -/
def pow (m : Modulus) (base exp : U256) : U256 :=
  m.powBits (m.reduce base) exp exp.bitLength .one

/-- The inverse of `a` modulo a prime `m`, which is `a ^ (m - 2)`. Zero has none. -/
def invert (m : Modulus) (a : U256) : Except Error U256 := do
  let a := m.reduce a
  if a.isZero then throw (.invalidParameter "Modulus::invert" "zero has no inverse")
  return m.pow a (m.value.wrappingSub (.ofWord 2))

end Modulus

end Secp256k1
