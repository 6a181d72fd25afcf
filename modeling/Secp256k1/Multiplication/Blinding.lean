import Secp256k1.Engine.Sampling
import Secp256k1.Multiplication.Basic

/-!
Randomness that hides what is multiplied.

A scalar is blinded by adding a random multiple of the group order, which takes every point of
the curve to infinity. A point is masked by a random scaling of its Jacobian coordinates. Both
change every intermediate value and leave the result as it is.
-/

namespace Secp256k1

/-- `k + r * n` for the group order `n`. -/
def U256.blind (k : U256) (r : UInt64) : U512 :=
  (Parameters.order.mulWide (.ofWord r)).wrappingAdd (.ofU256 k)

/-- The same point with its Jacobian coordinates scaled by `mask`, which is not zero. -/
def Point.rescale (p : Point) (mask : FieldElement) : Point :=
  match p.form with
  | .infinity => p
  | .affine => .ofJacobian (p.x * mask.square) (p.y * (mask.square * mask)) mask
  | .jacobian => .ofJacobian (p.x * mask.square) (p.y * (mask.square * mask)) (p.z * mask)

variable {σ ω : Type} [RandomSource σ]

/-- The same point under a random mask. Nothing is drawn for infinity. -/
def Point.randomize (p : Point) : Engine σ ω Point := do
  if p.isInfinity then return p
  return p.rescale (← Engine.randomMask)

/-- `k * p`, computed on a blinded `k`. -/
def Multiplication.performBlinded (algorithm : Algorithm) (k : U256) (p : Point) :
    Engine σ ω Point := do
  let blinded := k.blind (← Engine.nonzeroWord Engine.maskAttempts)
  Engine.report [.blindedMultiplication blinded.bitLength]
  perform algorithm blinded p none

end Secp256k1
