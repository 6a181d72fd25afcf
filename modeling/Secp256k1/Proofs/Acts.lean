import Secp256k1.Proofs.Histories

/-!
What a call does on the way.

Most operations check points and multiply before they have their result, and what fails first ends
them. A noted computation says for every state which of these acts it gets to. Without the notes
it is the operation itself.
-/

namespace Secp256k1.Context

open Engine

/-- What is done on the way and shows in the counters. -/
inductive Act where
  /-- A point is checked as thoroughly as the settings ask for. -/
  | validation (p : Point)
  /-- A point that has passed is multiplied. -/
  | multiplication
  deriving DecidableEq

/-- A computation, and the acts that it gets to from a state, the first one first. -/
structure Noted (σ α : Type) where
  program : Session σ α
  acts : State σ Context → List Act

namespace Noted

variable {σ α β : Type}

/-- The acts of what comes after a run. After a failure nothing comes. -/
def actsAfter (f : α → State σ Context → List Act) : Except Error α × State σ Context → List Act
  | (.ok a, t) => f a t
  | (.error _, _) => []

instance : Monad (Noted σ) where
  pure a := ⟨pure a, fun _ => []⟩
  bind x f :=
    { program := x.program >>= fun a => (f a).program
      acts s := x.acts s ++ actsAfter (fun a => (f a).acts) (x.program.run s) }

/-- A computation without acts. -/
def quiet (x : Session σ α) : Noted σ α := ⟨x, fun _ => []⟩

/-- A multiplication of `p`: the point is checked, and it is multiplied if it has passed. -/
def multiplication (p : Point) (x : Session σ α) : Noted σ α where
  program := x
  acts s :=
    .validation p :: actsAfter (fun _ _ => [.multiplication]) ((Context.validatePoint p).run s)

/-! ### The operations with their notes -/

def validatePoint (p : Point) : Noted σ Unit := ⟨Context.validatePoint p, fun _ => [.validation p]⟩

/-- The point at infinity is refused without a check. -/
def validatePublicKey (p : Point) : Noted σ Unit where
  program := Context.validatePublicKey p
  acts _ := if p.isInfinity then [] else [.validation p]

def multiplyWith (algorithm : Algorithm) (k : U256) (p : Point) : Noted σ Point :=
  multiplication p (Context.multiplyWith algorithm k p)

def multiply (k : U256) (p : Point) : Noted σ Point := multiplication p (Context.multiply k p)

def multiplyGenerator (k : U256) : Noted σ Point := multiply k .generator

def combine (u₁ u₂ : U256) (p : Point) : Noted σ Point := do
  let a ← multiplyGenerator u₁
  let b ← multiply u₂ p
  quiet (a.add b)

def verify (publicKey : Point) (digest : Ecdsa.Digest) (g : Signature) : Noted σ Unit := do
  quiet countVerification
  quiet g.validate
  validatePublicKey publicKey
  let w ← quiet (orderModulus.invert g.s)
  let p ← combine (orderModulus.mul digest.residue w) (orderModulus.mul g.r w) publicKey
  quiet do
    if p.isInfinity then throw (.verificationFailed "ecdsa::verify")
    if orderModulus.reduce p.toAffine.x.value != g.r then
      throw (.verificationFailed "ecdsa::verify")

/-- Nothing is done about a failure. -/
def accepts (publicKey : Point) (digest : Ecdsa.Digest) (g : Signature) : Noted σ Bool where
  program := Ecdsa.accepts publicKey digest g
  acts := (verify publicKey digest g).acts

def recoverPublicKey (digest : Ecdsa.Digest) (g : Signature) (id : RecoveryId) :
    Noted σ Point := do
  quiet g.validate
  let p ← quiet (Ecdsa.noncePoint g.r id)
  let w ← quiet (orderModulus.invert g.r)
  let q ← combine (orderModulus.neg (orderModulus.mul digest.residue w))
    (orderModulus.mul g.s w) p
  quiet do
    if q.isInfinity then throw (.pointAtInfinity "ecdsa::recover_public_key")
    return q

variable [RandomSource σ]

def multiplySecret (k : Scalar) (p : Point) : Noted σ Point :=
  multiplication p (Context.multiplySecret k p)

def publicKey (d : Scalar) : Noted σ Point := do
  quiet (requireScalar d.isPrivateKey "derive_public_key" "private key must satisfy 1 <= d < n")
  let q ← multiplySecret d .generator
  quiet do
    if q.isInfinity then throw (.pointAtInfinity "derive_public_key")
    return q

def generate : Noted σ KeyPair := do
  let c ← quiet Engine.stored
  let d ← quiet (Engine.randomScalar c.config.maxAttempts.toNat)
  let q ← publicKey d
  quiet do
    Engine.report [.keyPairGenerated]
    return ⟨d, q⟩

def signAttempts (d e : U256) (attempts : ℕ) : ℕ → Noted σ Ecdsa.Signed
  | 0 => quiet (Ecdsa.signAttempts d e attempts 0)
  | remaining + 1 => do
    let attempt := attempts - remaining
    let k ← quiet (Engine.randomScalar attempts)
    let p ← multiplySecret k .generator
    match ← quiet (Ecdsa.signWithNonce d e k p.toAffine) with
    | .inr cause =>
      quiet (Engine.report [cause attempt])
      signAttempts d e attempts remaining
    | .inl g =>
      quiet do
        let g := if (← Engine.stored).config.canonicalSignatures then g.normalize else g
        countSignature
        Engine.report [.signatureProduced attempt]
        return g

def signRecoverable (d : Scalar) (digest : Ecdsa.Digest) : Noted σ Ecdsa.Signed := do
  quiet (requireScalar d.isPrivateKey "ecdsa::sign" "private key must satisfy 1 <= d < n")
  let c ← quiet Engine.stored
  signAttempts d.value digest.residue c.config.maxAttempts.toNat c.config.maxAttempts.toNat

end Noted

/-- The operation that a call runs, with its notes. -/
def Call.noted {σ : Type} [RandomSource σ] : Call → Noted σ Unit
  | validatePoint p => .validatePoint p
  | validatePublicKey p => .validatePublicKey p
  | multiply k p => do let _ ← Noted.multiply k p
  | multiplyWith algorithm k p => do let _ ← Noted.multiplyWith algorithm k p
  | multiplyGenerator k => do let _ ← Noted.multiplyGenerator k
  | multiplySecret k p => do let _ ← Noted.multiplySecret k p
  | cachePoint p => .quiet (Context.cachePoint p)
  | cachedPoint p => do let _ ← Noted.quiet (Context.cachedPoint p)
  | clearCache => .quiet Context.clearCache
  | derivePublicKey d => do let _ ← Noted.publicKey d
  | generateKeyPair => do let _ ← Noted.generate
  | sign d digest => do let _ ← Noted.signRecoverable d digest
  | verify q digest g => .verify q digest g
  | accepts q digest g => do let _ ← Noted.accepts q digest g
  | recoverPublicKey digest g id => do let _ ← Noted.recoverPublicKey digest g id

/-! ### The acts of a run -/

section Runs

variable {σ α β : Type} {x : Noted σ α} {f : α → Noted σ β} {s t : State σ Context} {p : Point}
  {e : Error} {a : α}

lemma Noted.program_bind (x : Noted σ α) (f : α → Noted σ β) :
    (x >>= f).program = x.program >>= fun a => (f a).program := rfl

lemma Noted.acts_bind_of_ok (h : x.program.run s = (.ok a, t)) :
    (x >>= f).acts s = x.acts s ++ (f a).acts t :=
  congrArg (fun r => x.acts s ++ actsAfter (fun a => (f a).acts) r) h

lemma Noted.acts_bind_of_error (h : x.program.run s = (.error e, t)) :
    (x >>= f).acts s = x.acts s :=
  (congrArg (fun r => x.acts s ++ actsAfter (fun a => (f a).acts) r) h).trans (List.append_nil _)

lemma Noted.acts_multiplication_of_ok {u : Unit} {x : Session σ α}
    (h : (Context.validatePoint p).run s = (.ok u, t)) :
    (multiplication p x).acts s = [.validation p, .multiplication] :=
  congrArg (fun r => Act.validation p :: actsAfter (fun _ _ => [.multiplication]) r) h

lemma Noted.acts_multiplication_of_error {x : Session σ α}
    (h : (Context.validatePoint p).run s = (.error e, t)) :
    (multiplication p x).acts s = [.validation p] :=
  congrArg (fun r => Act.validation p :: actsAfter (fun _ _ => [.multiplication]) r) h

/-- Dropping a result is no act. -/
lemma Noted.acts_bind_pure_unit (x : Noted σ α) (s : State σ Context) :
    (x >>= fun _ => pure ()).acts s = x.acts s := by
  rcases h : x.program.run s with ⟨e | a, t⟩
  · exact acts_bind_of_error h
  · rw [acts_bind_of_ok h]
    exact List.append_nil _

lemma run_bind_pure_unit (x : Session σ α) (s : State σ Context) :
    (x >>= fun _ => pure ()).run s = ((x.run s).1.map fun _ => (), (x.run s).2) := by
  rw [run_bind]
  rcases x.run s with ⟨e | a, t⟩ <;> rfl

end Runs

/-! ### Without the notes -/

section Erasure

variable {σ : Type}

lemma Noted.program_verify (q : Point) (digest : Ecdsa.Digest) (g : Signature) :
    (verify q digest g : Noted σ Unit).program = Ecdsa.verify q digest g := rfl

variable [RandomSource σ]

/-- The induction is on the attempts that are left. -/
lemma Noted.program_signAttempts (d e : U256) (attempts remaining : ℕ) :
    (signAttempts d e attempts remaining : Noted σ Ecdsa.Signed).program =
      Ecdsa.signAttempts d e attempts remaining := by
  induction remaining with
  | zero => rfl
  | succ remaining ih =>
    unfold Ecdsa.signAttempts
    refine bind_congr fun k => bind_congr fun p => bind_congr fun r => ?_
    rcases r with g | cause
    · rfl
    · exact bind_congr fun _ => ih

lemma Noted.program_signRecoverable (d : Scalar) (digest : Ecdsa.Digest) :
    (signRecoverable d digest : Noted σ Ecdsa.Signed).program =
      Ecdsa.signRecoverable d digest :=
  bind_congr fun _ => bind_congr fun _ => program_signAttempts _ _ _ _

/-- **Without its notes a noted call is the call.** -/
theorem Call.program_noted (call : Call) : (call.noted : Noted σ Unit).program = call.perform := by
  cases call with
  | sign d digest =>
    exact congrArg (· >>= fun _ => pure ()) (Noted.program_signRecoverable d digest)
  | _ => rfl

end Erasure

end Secp256k1.Context
