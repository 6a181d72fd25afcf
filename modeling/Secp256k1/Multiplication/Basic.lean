import Secp256k1.Multiplication.OddMultiples
import Secp256k1.Multiplication.SignedDigits
import Secp256k1.Point.Jacobian

/-!
Multiples of a point.

There are three ways to compute `k * p`. They give the same point and differ in cost, and in
what the course of the computation shows of the bits of `k`.
-/

namespace Secp256k1.Multiplication

variable {κ : Type} [BitString κ]

/-! ### Doubling and adding -/

/-- Go through the bits below `i`, from the top one down. -/
def doubleAndAddBits (k : κ) (p : Point) : Nat → Point → Except Error Point
  | 0, acc => return acc
  | i + 1, acc => do
    let twice ← acc.double
    doubleAndAddBits k p i (← if BitString.bit k i then twice.add p else pure twice)

/-- One doubling per bit and one addition per set bit, in affine coordinates. -/
def doubleAndAdd (k : κ) (p : Point) : Except Error Point :=
  if BitString.isZero k || p.isInfinity then return .infinity
  else doubleAndAddBits k p.toAffine (BitString.bitLength k) .infinity

/-! ### The ladder -/

/-- Two registers, the second of which is ahead of the first by the point that is multiplied. -/
structure Rungs where
  lower : JacobianPoint
  upper : JacobianPoint

/-- One doubling and one addition, whatever the bit is. -/
def Rungs.step (bit : Bool) (r : Rungs) : Rungs :=
  if bit then ⟨r.upper.add r.lower, r.upper.double⟩ else ⟨r.lower.double, r.lower.add r.upper⟩

/-- Go through the bits below `i`, from the top one down. -/
def climb (k : κ) : Nat → Rungs → Rungs
  | 0, r => r
  | i + 1, r => climb k i (r.step (BitString.bit k i))

/-- The full width of `k` in Jacobian coordinates, and one inversion at the end. -/
def montgomeryLadder (k : κ) (p : Point) : Except Error Point :=
  if BitString.isZero k || p.isInfinity then return .infinity
  else
    let start : Rungs := ⟨.infinity, .ofPoint p⟩
    return (climb k (BitString.width κ) start).lower.toPoint.toAffine

/-! ### Signed windows -/

/-- The sum of the multiples that the digits stand for, doubling once per digit. -/
def evaluate (t : OddMultiples) : List Int16 → Except Error Point
  | [] => return .infinity
  | d :: ds => do
    let twice ← (← evaluate t ds).double
    if d == 0 then return twice else twice.add (← t.select d)

/-- One doubling per signed digit and one addition per digit that is not zero. The table has to
be the one of `p`; without a table it is doubling and adding after all. -/
def windowedNaf (k : κ) (p : Point) (table : Option OddMultiples) : Except Error Point :=
  match table with
  | none => doubleAndAdd k p
  | some t => do
    if BitString.isZero k || p.isInfinity then return .infinity
    requireParameter (t.isFor p) "windowed_naf"
      "precomputation table was built for a different base point"
    evaluate t (SignedDigits.ofScalar k t.window)

/-! ### The choice -/

/-- `k * p` by the given algorithm. Only signed windows look at the table. -/
def multiply (algorithm : Algorithm) (k : κ) (p : Point) (table : Option OddMultiples) :
    Except Error Point :=
  match algorithm with
  | .doubleAndAdd => doubleAndAdd k p
  | .montgomeryLadder => montgomeryLadder k p
  | .windowedNaf => windowedNaf k p table

/-- As `multiply`, and tell of a table that is missing. -/
def perform {σ ω : Type} (algorithm : Algorithm) (k : κ) (p : Point)
    (table : Option OddMultiples) : Engine σ ω Point := do
  if algorithm == .windowedNaf && table.isNone then Engine.report [.tableMissing]
  multiply algorithm k p table

end Secp256k1.Multiplication
