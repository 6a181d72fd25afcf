import Secp256k1.Context

/-!
Keys: a private key is a scalar `d` in `[1, n - 1]`, and its public key is the point `d * G`.
-/

namespace Secp256k1

structure KeyPair where
  privateKey : Scalar
  publicKey : Point

variable {σ : Type} [RandomSource σ]

/-- The public key of a private key. -/
def Scalar.publicKey (d : Scalar) : Session σ Point := do
  requireScalar d.isPrivateKey "derive_public_key" "private key must satisfy 1 <= d < n"
  let q ← Context.multiplySecret d .generator
  if q.isInfinity then throw (.pointAtInfinity "derive_public_key")
  return q

/-- A private key drawn uniformly, and its public key. -/
def KeyPair.generate : Session σ KeyPair := do
  let d ← Engine.randomScalar (← Engine.stored).config.maxAttempts.toNat
  let q ← d.publicKey
  Engine.report [.keyPairGenerated]
  return ⟨d, q⟩

end Secp256k1
