import Secp256k1.ConstantTime
import Secp256k1.Modulus
import Secp256k1.Parameters

/-!
Scalars: integers modulo the group order.

A scalar remembers its inverse once that has been computed, and whether it has been used since
it was last wiped. What is remembered never shows in its value: an operation that makes a new
value starts with nothing remembered.
-/

namespace Secp256k1

/-- The modulus of the scalars. -/
def orderModulus : Modulus :=
  { value := Parameters.order
    complement := Parameters.order.wrappingNeg
    topBit := by decide }

/-- Half the group order, rounded down: the largest canonical `s` of a signature. -/
def halfOrder : U256 := Parameters.order.shiftRight1

structure Scalar where
  value : U256
  /-- The inverse, if it has been computed. -/
  cachedInverse : Option U256
  /-- Made or used, and not wiped since. -/
  used : Bool
  deriving DecidableEq, Inhabited

namespace Scalar

/-- The residue of a 256-bit integer. -/
def ofU256 (a : U256) : Scalar := ⟨orderModulus.reduce a, none, true⟩

/-- A private key, which is neither zero nor reduced. -/
def ofPrivateKey (a : U256) : Except Error Scalar := do
  requireScalar (!a.isZero) "Scalar::private_key" "private key cannot be zero"
  requireScalar (orderModulus.contains a) "Scalar::private_key"
    "private key must be below the group order"
  return ⟨a, none, true⟩

/-- The private key with the given 32 big-endian bytes. -/
def ofBytes (bytes : List UInt8) : Except Error Scalar := ofPrivateKey (U256.ofBytes bytes)

/-- The residue of 32 big-endian bytes. -/
def ofBytesReduced (bytes : List UInt8) : Scalar := ofU256 (U256.ofBytes bytes)

def toBytes (s : Scalar) : Vector UInt8 32 := s.value.toBytes

def isZero (s : Scalar) : Bool := s.value.isZero

/-- Whether the value is at least 1 and below the group order. -/
def isPrivateKey (s : Scalar) : Bool := !s.value.isZero && orderModulus.contains s.value

def touch (s : Scalar) : Scalar := { s with used := true }

/-- The inverse, and the scalar that remembers it. A failure is not remembered. -/
def inverse (s : Scalar) : Except Error U256 × Scalar :=
  let s := s.touch
  match s.cachedInverse with
  | some v => (.ok v, s)
  | none =>
    match orderModulus.invert s.value with
    | .ok v => (.ok v, { s with cachedInverse := some v })
    | .error e => (.error e, s)

def add (s t : Scalar) : Scalar := ofU256 (orderModulus.add s.value t.value)

def mul (s t : Scalar) : Scalar := ofU256 (orderModulus.mul s.value t.value)

def neg (s : Scalar) : Scalar := ofU256 (orderModulus.neg s.value)

/-- Nothing is left of a wiped scalar. -/
def wipe (_ : Scalar) : Scalar := ⟨.zero, none, false⟩

/-- Whether two scalars have the same value. What they remember does not count. -/
def equals (s t : Scalar) : Bool := ConstantTime.equalWords s.value.words t.value.words

/-- The text, which gives nothing away. -/
def describe (_ : Scalar) : String := "Scalar([REDACTED])"

end Scalar

end Secp256k1
