import Secp256k1.Ecdsa.Basic
import Secp256k1.Proofs.Contexts
import Secp256k1.Proofs.NoncePoints

/-!
What may have happened to a context.

A context is created from settings, and then any operations are called on it in any order, with
any points and scalars, and with any source of randomness for each call. Calls may fail. The
contexts that come up are the reachable ones.
-/

namespace Secp256k1.Context

open Engine

/-! ### Calls -/

/-- The operations on a context, with their arguments. -/
inductive Call where
  | validatePoint (p : Point)
  | validatePublicKey (p : Point)
  | multiply (k : U256) (p : Point)
  | multiplyWith (algorithm : Algorithm) (k : U256) (p : Point)
  | multiplyGenerator (k : U256)
  | multiplySecret (k : Scalar) (p : Point)
  | cachePoint (p : Point)
  | cachedPoint (p : Point)
  | clearCache
  | derivePublicKey (d : Scalar)
  | generateKeyPair
  | sign (d : Scalar) (digest : Ecdsa.Digest)
  | verify (publicKey : Point) (digest : Ecdsa.Digest) (g : Signature)
  | accepts (publicKey : Point) (digest : Ecdsa.Digest) (g : Signature)
  | recoverPublicKey (digest : Ecdsa.Digest) (g : Signature) (id : RecoveryId)

namespace Call

/-- The operation that a call runs. -/
def perform {σ : Type} [RandomSource σ] : Call → Session σ Unit
  | validatePoint p => Context.validatePoint p
  | validatePublicKey p => Context.validatePublicKey p
  | multiply k p => do let _ ← Context.multiply k p
  | multiplyWith algorithm k p => do let _ ← Context.multiplyWith algorithm k p
  | multiplyGenerator k => do let _ ← Context.multiplyGenerator k
  | multiplySecret k p => do let _ ← Context.multiplySecret k p
  | cachePoint p => Context.cachePoint p
  | cachedPoint p => do let _ ← Context.cachedPoint p
  | clearCache => Context.clearCache
  | derivePublicKey d => do let _ ← d.publicKey
  | generateKeyPair => do let _ ← KeyPair.generate
  | sign d digest => do let _ ← Ecdsa.signRecoverable d digest
  | verify q digest g => Ecdsa.verify q digest g
  | accepts q digest g => do let _ ← Ecdsa.accepts q digest g
  | recoverPublicKey digest g id => do let _ ← Ecdsa.recoverPublicKey digest g id

/-- The points that are handed in. -/
def points : Call → List Point
  | validatePoint p | validatePublicKey p | multiply _ p | multiplyWith _ _ p
  | multiplySecret _ p | cachePoint p | cachedPoint p | verify p _ _ | accepts p _ _ => [p]
  | _ => []

/-- All points that are handed in have been made the way points are made. -/
def WellFormed (call : Call) : Prop := ∀ p ∈ call.points, p.WellFormed

/-- A point that is put into the cache by hand is on the curve. -/
def Careful (call : Call) : Prop := ∀ p, call = cachePoint p → p.isOnCurve = true

end Call

/-! ### Reachable contexts -/

/-- A context that was created, and that calls of the allowed kind have been made on since. -/
inductive ReachableBy (allowed : Call → Prop) : Context → Prop
  | create {σ ω : Type} (config : Config) (s : State σ ω) {c : Context}
      (h : ((create config).run s).1 = .ok c) : ReachableBy allowed c
  | call {σ : Type} [RandomSource σ] (call : Call) (hw : call.WellFormed) (ha : allowed call)
      (s : State σ Context) (h : ReachableBy allowed s.store) :
      ReachableBy allowed ((call.perform).run s).2.store

/-- A context that was created, and that any calls have been made on since. -/
abbrev Reachable : Context → Prop := ReachableBy fun _ => True

lemma reachable_minimal : Reachable ⟨.minimal, none, none, {}⟩ :=
  .create .minimal (⟨(), [], ()⟩ : State Unit Unit) rfl

variable {σ ω : Type} {I : Context → Prop} {p : Point} {P : CurvePoint}

lemma returns_createTable (w : ℕ) {J : ω → Prop} :
    Returns J (OddMultiples.create .generator w : Engine σ ω OddMultiples) fun t =>
      t.IsTableOf basePoint := by
  unfold OddMultiples.create
  by_cases hw : 2 ≤ w ∧ w ≤ 8
  · obtain ⟨t, ht, htP⟩ :=
      OddMultiples.build_spec hw.1 hw.2 Point.denotes_generator basePoint_ne_zero
    rw [ht]
    refine Returns.bind (P := (· = t)) (Yields.returns (ensures_lift ⟨t, rfl, rfl⟩)) ?_
    rintro _ rfl
    exact (keeps_report _).returns_bind fun _ => returns_pure htP
  · rw [OddMultiples.build_of_window hw]
    refine ensures_lift_error rfl ?_
    intro a h
    cases h

lemma returns_createCache (n : ℕ) {J : ω → Prop} :
    Returns J (LookupTable.create n : Engine σ ω LookupTable) fun t =>
      LookupTable.withCapacity n = .ok t := by
  unfold LookupTable.create
  refine Returns.bind (ensures_lift fun t ht => ht) ?_
  intro t ht
  exact (keeps_report _).returns_bind fun _ => returns_pure ht

/-- The optional part of a context that is made by `f`. -/
lemma returns_mapM {α β : Type} {J : ω → Prop} {Q : β → Prop} {f : α → Engine σ ω β}
    (hf : ∀ a, Returns J (f a) Q) (o : Option α) :
    Returns J (o.mapM f) fun r => r.isSome = o.isSome ∧ ∀ b ∈ r, Q b := by
  cases o with
  | none => exact returns_pure ⟨rfl, fun b hb => by cases hb⟩
  | some a =>
    rw [Option.mapM_some]
    refine Returns.bind (hf a) ?_
    intro b hb
    refine returns_pure ⟨rfl, ?_⟩
    rintro _ ⟨⟩
    exact hb

/-- What a new context is. -/
structure IsNew (config : Config) (c : Context) : Prop where
  settings : c.config = config
  sound : c.Sound
  counters : c.counters = {}
  isSome_cache : c.cache.isSome = config.cacheCapacity.isSome
  cache : ∀ t ∈ c.cache, ∃ n, LookupTable.withCapacity n = .ok t

/-- **A new context** has the settings, the generator's table, and a new cache if the settings ask
for one. -/
theorem returns_create (config : Config) {J : ω → Prop} :
    Returns J (create config : Engine σ ω Context) (IsNew config) := by
  unfold create
  refine (keeps_lift _).returns_bind fun _ => ?_
  have htable := fun w : UInt64 => returns_createTable (σ := σ) (J := J) w.toNat
  have hcache : ∀ n : UInt64, Returns J (LookupTable.create n.toNat : Engine σ ω LookupTable)
      fun t => ∃ n, LookupTable.withCapacity n = .ok t :=
    fun n => (returns_createCache n.toNat).mono fun r hr t ht => ⟨_, hr t ht⟩
  refine Returns.bind (returns_mapM htable config.windowSize) ?_
  rintro table ⟨-, htable⟩
  refine Returns.bind (returns_mapM hcache config.cacheCapacity) ?_
  rintro cache ⟨hsome, hcache⟩
  refine (keeps_report _).returns_bind fun _ => ?_
  exact returns_pure ⟨rfl, htable, rfl, hsome, hcache⟩

lemma isNew_of_create {config : Config} {s : State σ ω} {c : Context}
    (h : ((create config).run s).1 = .ok c) : IsNew config c :=
  ((returns_create config (J := fun _ => True)) s trivial).1 c h

/-! ### What calls keep -/

lemma keeps_combine (hI : Invariant I) (u₁ u₂ : U256) (hp : p.WellFormed) :
    Keeps I (Ecdsa.combine u₁ u₂ p : Session σ Point) := by
  unfold Ecdsa.combine
  refine (keeps_multiply hI u₁ Point.denotes_generator.wellFormed).bind fun a => ?_
  exact (keeps_multiply hI u₂ hp).bind fun b => keeps_lift _

lemma keeps_verify (hI : Invariant I) (hp : p.WellFormed) (digest : Ecdsa.Digest) (g : Signature) :
    Keeps I (Ecdsa.verify p digest g : Session σ Unit) := by
  unfold Ecdsa.verify
  refine Keeps.bind (ensures_count hI _).keeps fun _ => ?_
  refine (keeps_lift _).bind fun _ => ?_
  refine (keeps_validatePublicKey hI hp).bind fun _ => ?_
  refine (keeps_lift _).bind fun w => ?_
  refine (keeps_combine hI _ _ hp).bind fun q => ?_
  refine ensures_check (fun _ => trivial) fun _ => ?_
  split
  · exact keeps_throw _
  · exact keeps_pure _

lemma keeps_accepts (hI : Invariant I) (hp : p.WellFormed) (digest : Ecdsa.Digest)
    (g : Signature) : Keeps I (Ecdsa.accepts p digest g : Session σ Bool) := by
  unfold Ecdsa.accepts
  refine Ensures.tryCatch (Keeps.bind (keeps_verify hI hp digest g) fun _ => keeps_pure true)
    (fun _ _ => trivial) fun _ _ => keeps_pure false

lemma keeps_recoverPublicKey (hI : Invariant I) (digest : Ecdsa.Digest) (g : Signature)
    (id : RecoveryId) : Keeps I (Ecdsa.recoverPublicKey digest g id : Session σ Point) := by
  unfold Ecdsa.recoverPublicKey
  refine (keeps_lift _).bind fun _ => ?_
  rcases hp : Ecdsa.noncePoint g.r id with e | p
  · exact ensures_lift_error rfl trivial
  refine ensures_lift_ok rfl ?_
  refine (keeps_lift _).bind fun w => ?_
  obtain ⟨R, hR⟩ := Ecdsa.exists_denotes_of_noncePoint hp
  refine (keeps_combine hI _ _ hR.wellFormed).bind fun q => ?_
  exact ensures_check (fun _ => trivial) fun _ => keeps_pure q

variable [RandomSource σ]

lemma keeps_publicKey (hI : Invariant I) (d : Scalar) :
    Keeps I (d.publicKey : Session σ Point) := by
  unfold Scalar.publicKey
  refine (keeps_lift _).bind fun _ => ?_
  refine (keeps_multiplySecret hI d Point.denotes_generator.wellFormed).bind fun q => ?_
  exact ensures_check (fun _ => trivial) fun _ => keeps_pure q

lemma keeps_generate (hI : Invariant I) : Keeps I (KeyPair.generate : Session σ KeyPair) := by
  unfold KeyPair.generate
  refine keeps_stored.bind fun c => ?_
  refine (returns_randomScalar _).keeps.bind fun d => ?_
  refine (keeps_publicKey hI d).bind fun q => ?_
  exact (keeps_report _).bind fun _ => keeps_pure _

/-- The induction is on the attempts that are left. -/
lemma keeps_signAttempts (hI : Invariant I) (d e : U256) (attempts remaining : ℕ) :
    Keeps I (Ecdsa.signAttempts d e attempts remaining : Session σ Ecdsa.Signed) := by
  induction remaining with
  | zero => exact keeps_throw _
  | succ remaining ih =>
    unfold Ecdsa.signAttempts
    refine (returns_randomScalar _).keeps.bind fun k => ?_
    refine (keeps_multiplySecret hI k Point.denotes_generator.wellFormed).bind fun p => ?_
    refine (keeps_lift _).bind fun r => ?_
    split
    · exact (keeps_report _).bind fun _ => ih
    · refine keeps_stored.bind fun c => ?_
      refine Keeps.bind (ensures_count hI _).keeps fun _ => ?_
      exact (keeps_report _).bind fun _ => keeps_pure _

lemma keeps_signRecoverable (hI : Invariant I) (d : Scalar) (digest : Ecdsa.Digest) :
    Keeps I (Ecdsa.signRecoverable d digest : Session σ Ecdsa.Signed) := by
  unfold Ecdsa.signRecoverable
  refine (keeps_lift _).bind fun _ => ?_
  exact keeps_stored.bind fun c => keeps_signAttempts hI _ _ _ _

/-- **Every call keeps an invariant** that putting a point into the cache by hand keeps. -/
theorem Call.keeps (hI : Invariant I) (call : Call) (hw : call.WellFormed)
    (hc : ∀ p, call = .cachePoint p → Keeps I (Context.cachePoint p : Session σ Unit)) :
    Keeps I (call.perform : Session σ Unit) := by
  cases call with
  | validatePoint p => exact keeps_validatePoint hI (hw p (by simp [points]))
  | validatePublicKey p => exact keeps_validatePublicKey hI (hw p (by simp [points]))
  | multiply k p => exact (keeps_multiply hI k (hw p (by simp [points]))).bind fun _ => keeps_pure _
  | multiplyWith algorithm k p =>
    exact (keeps_multiplyWith hI algorithm k (hw p (by simp [points]))).bind fun _ => keeps_pure _
  | multiplyGenerator k =>
    exact (keeps_multiply hI k Point.denotes_generator.wellFormed).bind fun _ => keeps_pure _
  | multiplySecret k p =>
    exact (keeps_multiplySecret hI k (hw p (by simp [points]))).bind fun _ => keeps_pure _
  | cachePoint p => exact hc p rfl
  | cachedPoint p => exact (keeps_cachedPoint hI p).bind fun _ => keeps_pure _
  | clearCache => exact (ensures_update hI.clear).keeps
  | derivePublicKey d => exact (keeps_publicKey hI d).bind fun _ => keeps_pure _
  | generateKeyPair => exact (keeps_generate hI).bind fun _ => keeps_pure _
  | sign d digest => exact (keeps_signRecoverable hI d digest).bind fun _ => keeps_pure _
  | verify q digest g => exact keeps_verify hI (hw q (by simp [points])) digest g
  | accepts q digest g =>
    exact (keeps_accepts hI (hw q (by simp [points])) digest g).bind fun _ => keeps_pure _
  | recoverPublicKey digest g id =>
    exact (keeps_recoverPublicKey hI digest g id).bind fun _ => keeps_pure _

omit [RandomSource σ] in
/-- Putting a point into the cache changes neither the settings nor the generator's table. -/
lemma keeps_cachePoint_of_fixed (f : Config → Option OddMultiples → Prop) (p : Point) :
    Keeps (fun c => f c.config c.table) (Context.cachePoint p : Session σ Unit) :=
  keeps_cachePoint_of_insert fun _ _ _ _ hc _ _ => hc

/-- **The settings of a reachable context** are the ones that it was created with, and its table
is the generator's. -/
theorem ReachableBy.sound {allowed : Call → Prop} {c : Context} (h : ReachableBy allowed c) :
    c.Sound := by
  induction h with
  | create config s h => exact (isNew_of_create h).sound
  | call call hw _ s _ ih =>
    refine (Call.keeps invariant_sound call hw (fun p _ => ?_) s ih).2
    exact keeps_cachePoint_of_fixed (fun _ t => ∀ u ∈ t, u.IsTableOf basePoint) p

end Secp256k1.Context
