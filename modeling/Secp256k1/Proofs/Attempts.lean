import Secp256k1.Proofs.Countermeasures
import Secp256k1.Proofs.Signing
import Secp256k1.Proofs.Validations

/-!
Which nonce a signature is made with.

Signing is rejection sampling. One draw is a nonce together with the draws for the protection of
its multiplication, and it is accepted if both components of its signature are not zero. So the
signature is the one of the first nonce that has any, the first draw that fails ends the
attempts, and there is no failure but for lack of randomness.
-/

namespace Secp256k1

open Engine Context

variable {σ : Type} {p r : Point} {P : CurvePoint} {config : Config} {m : UInt64}

/-! ### What counts signatures -/

/-- Neither signatures nor verifications are counted while a point is checked. -/
lemma Context.keeps_answers_validatePoint (f : UInt64 → UInt64 → Prop) (p : Point) :
    Keeps (fun c => f c.counters.signatures c.counters.verifications)
      (validatePoint p : Session σ Unit) := by
  intro s hs
  have hv := validated_validatePoint p s
  refine ⟨trivial, ?_⟩
  generalize ((validatePoint p).run s).1 = r at hv
  generalize ((validatePoint p).run s).2.store = d at hv ⊢
  cases hv <;> exact hs

/-- A context with given settings that has counted so many signatures. -/
structure Context.HasSigned (config : Config) (m : UInt64) (c : Context) : Prop where
  sound : c.Sound
  config : c.config = config
  signatures : c.counters.signatures = m

lemma Context.HasSigned.validatePoint (hp : p.Denotes P) :
    Ensures (HasSigned config m) (Context.validatePoint p : Session σ Unit) fun o =>
      o = .ok () := by
  intro s hs
  have hI := invariant_sound.and (invariant_fixed fun c _ => c = config)
  obtain ⟨hv, hsound, hconfig⟩ := ensures_validatePoint hI hp s ⟨hs.sound, hs.config⟩
  exact ⟨hv, hsound, hconfig, (keeps_answers_validatePoint (fun n _ => n = m) p s hs.signatures).2⟩

/-- **Multiplying by a secret scalar** gives the multiple if the draws for its protection are
successful, and it counts no signature. -/
theorem Context.follows_multiplySecret [RandomSource σ] {d : Scalar} (hp : p.Denotes P)
    (hr : r.Denotes (d.value.toNat • P)) (hrs : r.system = .affine) :
    Follows (HasSigned config m) (multiplySecret d p : Session σ Point)
      (andThen (countermeasureStep config.sideChannel p) fun _ => give r) := by
  intro s hs
  have hvalid : Follows (HasSigned config m) (Context.validatePoint p : Session σ Unit) (give ()) :=
    (drawsNothing_validatePoint p).follows (HasSigned.validatePoint hp)
  obtain ⟨t, hrun, hsource, ht⟩ := hvalid.exists_run_eq hs
  have hannounced : HasSigned config m (announced t).store :=
    ⟨ht.sound, ht.config, ht.signatures⟩
  rw [run_multiplySecret_of_validate hrun, ht.config, ← hsource]
  exact follows_protectedMultiply _ _ (ht.sound.tableFor hp) hp hr hrs _ hannounced

namespace Ecdsa

variable {digest : Digest} {d k : Scalar}

/-! ### One attempt -/

variable [RandomSource σ]

/-- The draws of one attempt: a nonce, and what the protection of its multiplication takes. -/
def attemptStep (config : Config) : σ → Except Error Scalar × σ :=
  andThen (scalarStep config.maxAttempts.toNat) fun k =>
    andThen (countermeasureStep config.sideChannel .generator) fun _ => give k

lemma curable_attemptStep (config : Config) :
    Curable (attemptStep config : σ → Except Error Scalar × σ) :=
  (curable_scalarStep _).andThen fun k =>
    (curable_countermeasureStep _ _).andThen fun _ => curable_give k

/-- There is no nonce, or not what the protection of its multiplication needs. -/
def LacksAttempt (config : Config) (source : σ) : Prop :=
  Fails (scalarStep config.maxAttempts.toNat) source ∨
    Lacks config.sideChannel .generator (scalarStep config.maxAttempts.toNat source).2

lemma fails_attemptStep (config : Config) (source : σ) :
    Fails (attemptStep config) source ↔ LacksAttempt config source := by
  have h : ∀ (k : Scalar) (rest : σ),
      Fails (andThen (countermeasureStep config.sideChannel .generator) fun _ => give k) rest ↔
        Lacks config.sideChannel .generator rest := by
    intro k rest
    rw [fails_andThen_give, fails_countermeasureStep]
  exact fails_andThen h

/-- The signature of an attempt, with the smaller `s` if the settings ask for it. -/
noncomputable def signatureOf (config : Config) (d : Fn) (digest : Digest) (k : Scalar) :
    Option Signed :=
  (signatureWith d digest k.value.toFn).map fun g =>
    if config.canonicalSignatures then g.lowS else g

/-- The first `i` nonces are drawn, and none of them has a signature. -/
def AllDegenerate (config : Config) (d : Fn) (digest : Digest) (i : ℕ) (source : σ) : Prop :=
  ∀ j < i, Rejects (attemptStep config) (signatureOf config d digest) j source

/-- What is said if no nonce has a signature. -/
def degenerate : Error :=
  .computationFailed "ecdsa::sign" "every nonce attempt produced a degenerate signature"

/-- **An attempt** fails with its draws, or it has a nonce and the point of the nonce. That holds
whatever comes after it. -/
lemma run_attempt {s : State σ Context} (hs : HasSigned config m s.store) :
    ∃ t : State σ Context, HasSigned config m t.store ∧
      t.source = (attemptStep config s.source).2 ∧
      ((∃ e, (attemptStep config s.source).1 = .error e ∧
        ∀ {α : Type} (f : Scalar → Point → Session σ α),
          (randomScalar config.maxAttempts.toNat >>= fun k =>
            multiplySecret k .generator >>= f k).run s = (.error e, t)) ∨
      ∃ k p, (attemptStep config s.source).1 = .ok k ∧ k.isPrivateKey = true ∧
        k.cachedInverse = none ∧ p.Denotes (k.value.toNat • basePoint) ∧
        ∀ {α : Type} (f : Scalar → Point → Session σ α),
          (randomScalar config.maxAttempts.toNat >>= fun k =>
            multiplySecret k .generator >>= f k).run s = (f k p).run t) := by
  have hdraws : DrawsBy (randomScalar _ : Session σ Scalar) _ :=
    drawsBy_randomScalar config.maxAttempts.toNat
  unfold attemptStep andThen
  rcases hk : scalarStep config.maxAttempts.toNat s.source with ⟨e | k, rest⟩
  · refine ⟨{ s with source := rest }, hs, rfl, .inl ⟨e, rfl, fun f => ?_⟩⟩
    exact hdraws.run_bind_of_error hk
  obtain ⟨hkey, hc⟩ := scalar_of_scalarStep (congrArg Prod.fst hk)
  obtain ⟨r, hr, hrP⟩ := Multiplication.montgomeryLadder_spec k.value Point.denotes_generator
  obtain ⟨hresult, hsource, ht⟩ := follows_multiplySecret Point.denotes_generator hrP
    (Multiplication.system_of_montgomeryLadder hr) { s with source := rest } hs
  unfold andThen at hresult hsource
  dsimp only at hresult hsource ⊢
  rcases hrun : (multiplySecret k .generator).run { s with source := rest } with ⟨o, t⟩
  rw [hrun] at hresult hsource ht
  refine ⟨t, ht, ?_⟩
  rcases hd : countermeasureStep config.sideChannel .generator rest with ⟨e | _, rest'⟩
  · rw [hd] at hresult hsource
    obtain rfl : o = .error e := hresult
    refine ⟨hsource, .inl ⟨e, rfl, fun f => ?_⟩⟩
    rw [hdraws.run_bind_of_ok hk, run_bind, hrun]
  · rw [hd] at hresult hsource
    obtain rfl : o = .ok r := hresult
    refine ⟨hsource, .inr ⟨k, r, rfl, hkey, hc, hrP, fun f => ?_⟩⟩
    rw [hdraws.run_bind_of_ok hk, run_bind, hrun]

/-- One signature more is counted if there is a result. -/
def Counts (config : Config) (m : UInt64) : Except Error Signed → Context → Prop
  | .ok _, c => HasSigned config (m + 1) c
  | .error _, c => HasSigned config m c

/-- **The attempts are samples.** The induction is on the attempts that are left. -/
theorem sampled_signAttempts (d : Scalar) (digest : Digest) (remaining : ℕ) {s : State σ Context}
    (hs : HasSigned config m s.store) {out : Except Error Signed × State σ Context}
    (hout : (signAttempts d.value digest.residue config.maxAttempts.toNat remaining).run s = out) :
    Sampled (attemptStep config) (signatureOf config d.value.toFn digest) degenerate remaining
        s.source (out.1, out.2.source) ∧
      Counts config m out.1 out.2.store := by
  subst hout
  induction remaining generalizing s with
  | zero => exact ⟨.exhausted fun j hj => absurd hj j.not_lt_zero, hs⟩
  | succ remaining ih =>
    unfold signAttempts
    obtain ⟨t, ht, hsource, ⟨e, he, hrun⟩ | ⟨k, p, hk, hkey, hc, hp, hrun⟩⟩ := run_attempt hs
    · rw [hrun]
      dsimp only
      rw [hsource]
      exact ⟨.of_error he, ht⟩
    have hsign := signWithNonce_eq d digest hkey hc hp
    rw [hrun]
    rcases hg : signatureWith d.value.toFn digest k.value.toFn with _ | g
    · rw [hg] at hsign
      obtain ⟨cause, hcause⟩ := hsign
      have hrej : Rejects (attemptStep config) (signatureOf config d.value.toFn digest) 0
          s.source := ⟨k, hk, by rw [signatureOf, hg]; rfl⟩
      rw [hcause, run_ok_bind]
      dsimp only
      rw [run_report_bind]
      refine And.imp_left (fun h => .cons hrej ?_) (ih ht)
      rw [← hsource]
      exact h
    · rw [hg] at hsign
      dsimp only at hsign
      obtain ⟨hk0, hkn⟩ := k.isPrivateKey_iff.mp hkey
      have hrange := (certifies_of_signatureWith (U256.toFn_ne_zero hk0 hkn) hg).inRange
      have hgive : signatureOf config d.value.toFn digest k =
          some (if t.store.config.canonicalSignatures then g.normalize else g) := by
        rw [signatureOf, hg, ht.config, Signed.normalize_eq_lowS hrange]
        rfl
      have h : Sampled (attemptStep config) (signatureOf config d.value.toFn digest) degenerate
          (remaining + 1) s.source _ := .of_ok hk hgive
      rw [← hsource] at h
      rw [hsign, run_ok_bind]
      dsimp only
      rw [run_stored_bind]
      exact ⟨h, ht.sound, ht.config, congrArg (· + 1) ht.signatures⟩

/-- Without a private key nothing is drawn, and nothing else happens either. -/
lemma run_signRecoverable_of_not_isPrivateKey (hd : d.isPrivateKey = false) (digest : Digest)
    (s : State σ Context) :
    (signRecoverable d digest).run s =
      (.error (.invalidScalar "ecdsa::sign" "private key must satisfy 1 <= d < n"), s) := by
  have h : requireScalar d.isPrivateKey "ecdsa::sign" "private key must satisfy 1 <= d < n" =
      .error (.invalidScalar "ecdsa::sign" "private key must satisfy 1 <= d < n") := by
    rw [hd]
    rfl
  unfold signRecoverable
  rw [h, run_error_bind]

/-- **Signing makes the signature of the first nonce that has one.** At most as many nonces are
drawn as the settings allow, and nothing is drawn after the one that decides. Signing fails if
none of them has a signature, or if the source lacks what one of them takes, and then it fails as
a computation and counts no signature. What is no private key is refused before the first draw. -/
theorem signRecoverable_eq_first_nonce (d : Scalar) (digest : Digest) (s : State σ Context)
    (hs : Reachable s.store) (hconfig : s.store.config = config)
    {out : Except Error Signed × State σ Context} (hout : (signRecoverable d digest).run s = out) :
    (0 < d.value.toNat ∧ d.value.toNat < groupOrder →
      Sampled (attemptStep config) (signatureOf config d.value.toFn digest) degenerate
        config.maxAttempts.toNat s.source (out.1, out.2.source) ∧
      (∀ g, out.1 = .ok g ↔ ∃ i < config.maxAttempts.toNat,
        AllDegenerate config d.value.toFn digest i s.source ∧
        ∃ k, drawn (attemptStep config) i s.source = .ok k ∧
          signatureOf config d.value.toFn digest k = some g) ∧
      ((∃ e, out.1 = .error e) ↔ ∃ i ≤ config.maxAttempts.toNat,
        AllDegenerate config d.value.toFn digest i s.source ∧
        (i = config.maxAttempts.toNat ∨
          LacksAttempt config (after (attemptStep config) i s.source))) ∧
      (∀ g, out.1 = .ok g →
        out.2.store.counters.signatures = s.store.counters.signatures + 1) ∧
      ∀ e, out.1 = .error e → (∃ site why, e = .computationFailed site why) ∧
        out.2.store.counters.signatures = s.store.counters.signatures) ∧
    (¬(0 < d.value.toNat ∧ d.value.toNat < groupOrder) →
      out = (.error (.invalidScalar "ecdsa::sign" "private key must satisfy 1 <= d < n"), s)) := by
  rw [← d.isPrivateKey_iff]
  constructor
  · intro hd
    rw [run_signRecoverable hd, hconfig] at hout
    obtain ⟨hsampled, hcounts⟩ := sampled_signAttempts d digest _ ⟨hs.sound, hconfig, rfl⟩ hout
    refine ⟨hsampled, fun g => hsampled.ok_iff, ?_, ?_, ?_⟩
    · simp only [← fails_attemptStep]
      exact hsampled.error_iff
    · intro g hg
      rw [hg] at hcounts
      exact hcounts.signatures
    · intro e he
      rw [he] at hcounts
      refine ⟨?_, hcounts.signatures⟩
      have hstep := congrArg Prod.fst hsampled.eq_sampleStep.symm
      exact (curable_attemptStep config).sampleStep _ _ e (hstep.trans he)
  · intro hd
    rw [Bool.not_eq_true] at hd
    rw [← hout, run_signRecoverable_of_not_isPrivateKey hd]

/-- The key 1 makes one signature on a tape that spells the nonce 1, and the key 0 makes none. -/
theorem signRecoverable_oneTape :
    Reachable ⟨.minimal, none, none, {}⟩ ∧
      (((signRecoverable ⟨.one, none, true⟩ zeroDigest).run
        (⟨oneTape, [], ⟨.minimal, none, none, {}⟩⟩ :
          State Tape Context)).2.store.counters.signatures = 1) ∧
      ((signRecoverable ⟨.zero, none, true⟩ zeroDigest).run
        (⟨oneTape, [], ⟨.minimal, none, none, {}⟩⟩ : State Tape Context)).2 =
          ⟨oneTape, [], ⟨.minimal, none, none, {}⟩⟩ := by
  have hone : 0 < U256.one.toNat ∧ U256.one.toNat < groupOrder := by
    rw [U256.toNat_one]
    exact ⟨Nat.one_pos, prime_groupOrder.one_lt⟩
  have hzero : ¬(0 < U256.zero.toNat ∧ U256.zero.toNat < groupOrder) := by
    rw [U256.toNat_zero]
    exact fun h => h.1.false
  obtain ⟨-, -, -, hcount, -⟩ := (signRecoverable_eq_first_nonce ⟨.one, none, true⟩ zeroDigest
    ⟨oneTape, [], ⟨.minimal, none, none, {}⟩⟩ reachable_minimal rfl rfl).1 hone
  have hinvalid := (signRecoverable_eq_first_nonce ⟨.zero, none, true⟩ zeroDigest
    ⟨oneTape, [], ⟨.minimal, none, none, {}⟩⟩ reachable_minimal rfl rfl).2 hzero
  exact ⟨reachable_minimal, hcount _ run_signRecoverable_oneTape, congrArg Prod.snd hinvalid⟩

end Ecdsa

end Secp256k1
