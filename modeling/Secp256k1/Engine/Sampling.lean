import Secp256k1.Engine.Basic
import Secp256k1.FieldElement
import Secp256k1.Scalar

/-!
Rejection sampling.

Each sampler draws until what it drew can be used, and gives up after a bounded number of draws.
A scalar is what one block spells, never the residue of a larger integer, so uniform blocks give
uniform scalars. A source that refuses ends the sampling at once.
-/

namespace Secp256k1.Engine

variable {σ ω α β : Type}

/-- The first draw that is accepted, among at most so many. -/
def sample (draw : Engine σ ω α) (accept : α → Option β) (exhausted : Error) :
    Nat → Engine σ ω β
  | 0 => throw exhausted
  | attempts + 1 => do
    match accept (← draw) with
    | some b => return b
    | none => sample draw accept exhausted attempts

variable [RandomSource σ]

/-- A word that is not zero. -/
def nonzeroWord (attempts : Nat) : Engine σ ω UInt64 :=
  sample drawWord (fun w => if w == 0 then none else some w)
    (.computationFailed "secure random" "random generator produced only zero words") attempts

/-- A scalar in `[1, n - 1]`, from blocks of 32 bytes. -/
def randomScalar (attempts : Nat) : Engine σ ω Scalar :=
  sample (drawBytes Parameters.scalarSize) (fun b => (Scalar.ofBytes b.toList).toOption)
    (.computationFailed "random_scalar" "no scalar in range after the attempt bound") attempts

/-- The draws that may go into one mask. -/
def maskAttempts : Nat := 16

/-- A field element that is not zero, from blocks of 32 bytes. -/
def randomMask : Engine σ ω FieldElement :=
  sample (drawBytes Parameters.fieldElementSize)
    (fun b =>
      let a := FieldElement.reduce (U256.ofBytes b.toList)
      if a.isZero then none else some a)
    (.computationFailed "randomize_point" "random generator produced no usable mask") maskAttempts

end Secp256k1.Engine
