import Secp256k1.ConstantTime

/-!
Secret data.

Text made of a secret never shows it, and equality looks at all of it.
-/

namespace Secp256k1

/-- A byte string of fixed length. -/
structure SecretBuffer (n : Nat) where
  data : Vector UInt8 n
  deriving DecidableEq

namespace SecretBuffer

variable {n : Nat}

def zeroed : SecretBuffer n := ⟨Vector.replicate n 0⟩

def length (_ : SecretBuffer n) : Nat := n

def isEmpty (_ : SecretBuffer n) : Bool := n == 0

def toList (b : SecretBuffer n) : List UInt8 := b.data.toList

/-- Change the byte at an index, if there is one. -/
def set (b : SecretBuffer n) (i : Nat) (v : UInt8) : SecretBuffer n :=
  ⟨b.data.setIfInBounds i v⟩

/-- Nothing is left of a wiped buffer. -/
def wipe (_ : SecretBuffer n) : SecretBuffer n := zeroed

def equals (a b : SecretBuffer n) : Bool := ConstantTime.equalBytes a.toList b.toList

def isAllZero (b : SecretBuffer n) : Bool := b.equals zeroed

def describe (_ : SecretBuffer n) : String := "SecretBuffer<" ++ toString n ++ ">([REDACTED])"

end SecretBuffer

/-- A secret value that is kept for a short time. -/
structure EphemeralSecret (α : Type) where
  value : α

namespace EphemeralSecret

variable {α : Type}

def modify (f : α → α) (s : EphemeralSecret α) : EphemeralSecret α := ⟨f s.value⟩

def describe (_ : EphemeralSecret α) : String := "EphemeralSecret([REDACTED])"

end EphemeralSecret

end Secp256k1
