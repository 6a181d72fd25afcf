import Secp256k1.Modulus
import Secp256k1.Parameters

/-!
The field of the curve: integers modulo `Parameters.prime`.

An element is kept as its residue below the prime. The operations take residues to residues, so
two elements are equal exactly when their representations are.
-/

namespace Secp256k1

/-- The modulus of the coordinates. -/
def fieldModulus : Modulus :=
  { value := Parameters.prime
    complement := Parameters.prime.wrappingNeg
    topBit := by decide }

structure FieldElement where
  value : U256
  deriving DecidableEq, Inhabited

namespace FieldElement

/-- The representation is the residue itself. -/
def IsCanonical (a : FieldElement) : Prop := a.value.toNat < Parameters.prime.toNat

def zero : FieldElement := ⟨.zero⟩

def one : FieldElement := ⟨.one⟩

def ofWord (w : UInt64) : FieldElement := ⟨.ofWord w⟩

/-- The residue of any 256-bit integer. -/
def reduce (a : U256) : FieldElement := ⟨fieldModulus.reduce a⟩

/-- The element of an integer that is a residue already. -/
def ofU256 (a : U256) : Except Error FieldElement := do
  requireParameter (fieldModulus.contains a) "FieldElement::from_uint"
    "value is not below the field prime"
  return ⟨a⟩

/-- The element with the given 32 big-endian bytes. -/
def ofBytes (bytes : List UInt8) : Except Error FieldElement := do
  let a := U256.ofBytes bytes
  requireParameter (fieldModulus.contains a) "FieldElement::from_bytes"
    "coordinate is not below the field prime"
  return ⟨a⟩

def ofHex (text : String) : Except Error FieldElement := do ofU256 (← U256.ofHex text)

def toBytes (a : FieldElement) : Vector UInt8 32 := a.value.toBytes

/-- The tagged text. -/
def describe (a : FieldElement) : String := "FieldElement(0x" ++ a.value.toHex ++ ")"

@[inline] def isZero (a : FieldElement) : Bool := a.value.isZero

@[inline] def isOdd (a : FieldElement) : Bool := a.value.isOdd

def add (a b : FieldElement) : FieldElement := ⟨fieldModulus.add a.value b.value⟩

def sub (a b : FieldElement) : FieldElement := ⟨fieldModulus.sub a.value b.value⟩

def mul (a b : FieldElement) : FieldElement := ⟨fieldModulus.mul a.value b.value⟩

def neg (a : FieldElement) : FieldElement := ⟨fieldModulus.neg a.value⟩

instance : Add FieldElement := ⟨add⟩
instance : Sub FieldElement := ⟨sub⟩
instance : Mul FieldElement := ⟨mul⟩
instance : Neg FieldElement := ⟨neg⟩

def square (a : FieldElement) : FieldElement := ⟨fieldModulus.square a.value⟩

def double (a : FieldElement) : FieldElement := a + a

def pow (a : FieldElement) (e : U256) : FieldElement := ⟨fieldModulus.pow a.value e⟩

/-- The inverse, which zero does not have. -/
def invert (a : FieldElement) : Except Error FieldElement :=
  (fieldModulus.invert a.value).map FieldElement.mk

/-- The inverse, and zero for zero: the power `p - 2` takes zero to itself. -/
def invertOrZero (a : FieldElement) : FieldElement :=
  a.pow (fieldModulus.value.wrappingSub (.ofWord 2))

/-- A square root, if there is one. The prime is 3 modulo 4, so that `a ^ ((p + 1) / 4)` is a
root of every square; of what is no square it is no root, and squaring it again tells. -/
def sqrt? (a : FieldElement) : Option FieldElement :=
  let root := a.pow (fieldModulus.value.wrappingAdd .one).shiftRight1.shiftRight1
  if root.square = a then some root else none

/-- `b` if `choice` is set, else `a`. -/
def select (a b : FieldElement) (choice : Bool) : FieldElement :=
  ⟨U256.select a.value b.value choice⟩

end FieldElement

end Secp256k1
