import Secp256k1.Ecdsa.Signature
import Secp256k1.KeyPair
import Secp256k1.Point.Sec1

/-!
ECDSA: signing, verifying, and recovering a public key.

Messages come as digests of 32 bytes, of which `e` is the residue modulo the group order `n`. A
nonce `k` with the point `R = k * G` gives `r`, the residue of the abscissa of `R`, and
`s = (e + r * d) / k`. A signature is valid for the key `Q` if `(e / s) * G + (r / s) * Q` has
an abscissa with the residue `r`. Conversely `(s * R - e * G) / r` is the key of a signature.
-/

namespace Secp256k1.Ecdsa

variable {σ : Type}

/-- A message digest. -/
abbrev Digest : Type := Vector UInt8 32

/-- The residue of a digest. -/
def Digest.residue (digest : Digest) : U256 := orderModulus.reduce (.ofBytes digest.toList)

/-! ### Signing -/

/-- A signature together with the id of its nonce point. -/
structure Signed where
  signature : Signature
  recoveryId : RecoveryId
  deriving DecidableEq

/-- The signature with a given nonce and nonce point, unless one of its components is zero: then
the cause, to be reported. -/
def signWithNonce (d e : U256) (k : Scalar) (p : Point) :
    Except Error (Signed ⊕ (Nat → Event)) := do
  if p.isInfinity then return .inr .noncePointAtInfinity
  let x := p.x.value
  let r := orderModulus.reduce x
  if r.isZero then return .inr .zeroR
  let inverse ← k.inverse.1
  let s := orderModulus.mul inverse (orderModulus.add e (orderModulus.mul r d))
  if s.isZero then return .inr .zeroS
  return .inl ⟨⟨r, s⟩, ⟨p.y.isOdd, x != r⟩⟩

/-- The canonical form. The canonical signature has the opposite nonce point. -/
def Signed.normalize (g : Signed) : Signed :=
  if g.signature.isCanonical then g else ⟨g.signature.normalize, g.recoveryId.flip⟩

variable [RandomSource σ]

/-- Draw nonces until one gives a signature; `remaining` more of the `attempts` may be drawn. -/
def signAttempts (d e : U256) (attempts : Nat) : Nat → Session σ Signed
  | 0 =>
    throw (.computationFailed "ecdsa::sign" "every nonce attempt produced a degenerate signature")
  | remaining + 1 => do
    let attempt := attempts - remaining
    let k ← Engine.randomScalar attempts
    let p ← Context.multiplySecret k .generator
    match ← signWithNonce d e k p.toAffine with
    | .inr cause =>
      Engine.report [cause attempt]
      signAttempts d e attempts remaining
    | .inl g =>
      let g := if (← Engine.stored).config.canonicalSignatures then g.normalize else g
      Context.countSignature
      Engine.report [.signatureProduced attempt]
      return g

/-- Sign a digest, and tell which nonce point was used. -/
def signRecoverable (d : Scalar) (digest : Digest) : Session σ Signed := do
  requireScalar d.isPrivateKey "ecdsa::sign" "private key must satisfy 1 <= d < n"
  let attempts := (← Engine.stored).config.maxAttempts.toNat
  signAttempts d.value digest.residue attempts attempts

/-- Sign a digest. -/
def sign (d : Scalar) (digest : Digest) : Session σ Signature :=
  return (← signRecoverable d digest).signature

omit [RandomSource σ]

/-! ### Verifying -/

/-- `u₁ * G + u₂ * p`. -/
def combine (u₁ u₂ : U256) (p : Point) : Session σ Point := do
  let a ← Context.multiplyGenerator u₁
  let b ← Context.multiply u₂ p
  a.add b

/-- Check a signature of a digest. -/
def verify (publicKey : Point) (digest : Digest) (g : Signature) : Session σ Unit := do
  Context.countVerification
  g.validate
  Context.validatePublicKey publicKey
  let w ← orderModulus.invert g.s
  let p ← combine (orderModulus.mul digest.residue w) (orderModulus.mul g.r w) publicKey
  if p.isInfinity then throw (.verificationFailed "ecdsa::verify")
  if orderModulus.reduce p.toAffine.x.value != g.r then
    throw (.verificationFailed "ecdsa::verify")

/-- Whether a signature of a digest is valid. -/
def accepts (publicKey : Point) (digest : Digest) (g : Signature) : Session σ Bool :=
  tryCatch (do verify publicKey digest g; return true) fun _ => return false

/-! ### Recovering -/

/-- The abscissa of the nonce point. -/
def nonceAbscissa (r : U256) (id : RecoveryId) : Except Error U256 := do
  if id.xIsReduced then
    let (x, carry) := r.overflowingAdd orderModulus.value
    require (!carry && fieldModulus.contains x)
      (.invalidSignature "ecdsa::recover_public_key" "recovery id selects x >= p")
    return x
  else return r

/-- The nonce point. -/
def noncePoint (r : U256) (id : RecoveryId) : Except Error Point := do
  let x ← nonceAbscissa r id
  match Point.ofCompressed (Point.parityTag id.yIsOdd :: x.toBytes.toList) with
  | .ok p => return p
  | .error _ =>
    throw (.invalidSignature "ecdsa::recover_public_key" "no curve point for r")

/-- The public key for which a signature of a digest is valid, among those that the id tells
apart. -/
def recoverPublicKey (digest : Digest) (g : Signature) (id : RecoveryId) : Session σ Point := do
  g.validate
  let p ← noncePoint g.r id
  let w ← orderModulus.invert g.r
  let q ← combine (orderModulus.neg (orderModulus.mul digest.residue w)) (orderModulus.mul g.s w) p
  if q.isInfinity then throw (.pointAtInfinity "ecdsa::recover_public_key")
  return q

end Secp256k1.Ecdsa
