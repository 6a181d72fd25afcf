import Secp256k1.Engine.Tape
import Secp256k1.Proofs.Recovery
import Secp256k1.Proofs.Sampling

/-!
Signatures are valid, and their ids recover the key.

For a nonce `k` with the point `R = k * G` the equation `s = (e + r * d) / k` says that
`s * R - e * G` is `r * d * G`, so that the key which the signature and its nonce point determine
is `d * G`. Negating `s` negates the nonce point and leaves the key.
-/

namespace Secp256k1

open WeierstrassCurve.Affine
open Engine Context

lemma RecoveryId.Selects.flip {id : RecoveryId} {r : U256} {R : CurvePoint}
    (h : id.Selects r R) : id.flip.Selects r (-R) := by
  obtain ⟨x, y, hn, rfl, hx, hy⟩ := h
  refine ⟨x, -y, ?_, ?_, hx, ?_⟩
  · rw [← negY_curve (b := (7 : Fp)) x y]
    exact (nonsingular_neg _ _).mpr hn
  · rw [Point.neg_some]
    simp only [negY_curve]
  · rw [val_neg_odd_iff (y_ne_zero hn), hy, RecoveryId.flip, Bool.not_eq_true, Bool.not_eq_true']

namespace Signature

variable {g : Signature}

lemma toNat_halfOrder : halfOrder.toNat = groupOrder / 2 := by
  rw [halfOrder, U256.toNat_shiftRight1, toNat_order]

lemma isCanonical_iff (g : Signature) : g.isCanonical = true ↔ g.s.toNat ≤ groupOrder / 2 := by
  rw [isCanonical, U256.le_iff, toNat_halfOrder]

lemma inRange_ofFn {r s : Fn} (hr : r ≠ 0) (hs : s ≠ 0) : InRange ⟨.ofFn r, .ofFn s⟩ := by
  refine ⟨?_, ?_, ?_, ?_⟩ <;> dsimp only <;> rw [U256.toNat_ofFn]
  · exact ZMod.val_pos.mpr hr
  · exact r.val_lt
  · exact ZMod.val_pos.mpr hs
  · exact s.val_lt

lemma InRange.toNat_neg_s (hg : g.InRange) :
    (orderModulus.neg g.s).toNat = groupOrder - g.s.toNat := by
  rw [U256.toNat_neg_order hg.s_lt.le]
  exact Nat.mod_eq_of_lt (Nat.sub_lt (hg.s_pos.trans hg.s_lt) hg.s_pos)

end Signature

namespace Ecdsa

variable {σ : Type} {I : Context → Prop} {p : Point} {Q : CurvePoint} {digest : Digest}
  {d k : Scalar} {g : Signed}

/-- The signature is in range, and its id selects the nonce point that determines the key. -/
structure Signed.Certifies (g : Signed) (digest : Digest) (Q : CurvePoint) : Prop where
  inRange : g.signature.InRange
  nonce : ∃ R, g.recoveryId.Selects g.signature.r R ∧ recoveredKey R digest g.signature = Q

lemma Signed.Certifies.valid (h : g.Certifies digest Q) (hQ : Q ≠ 0) :
    Valid Q digest g.signature := by
  obtain ⟨hg, R, hR, hkey⟩ := h
  exact valid_iff.mpr ⟨hg, hQ, _, R, hR, hkey⟩

/-! ### One nonce -/

/-- The nonce cancels out of the key. -/
lemma recoveredKey_of_nonce {g : Signature} {d k : Fn} (hg : g.InRange) (hk : k ≠ 0)
    (hs : g.s.toFn = k⁻¹ * (digest.toFn + g.r.toFn * d)) :
    recoveredKey (k • basePoint) digest g = d • basePoint := by
  have hsk : g.s.toFn * k = digest.toFn + g.r.toFn * d := by
    rw [hs, mul_comm, mul_inv_cancel_left₀ hk]
  calc recoveredKey (k • basePoint) digest g
      = g.r.toFn⁻¹ • ((g.s.toFn * k) • basePoint - digest.toFn • basePoint) := by
        rw [recoveredKey, smul_smul]
    _ = g.r.toFn⁻¹ • (g.r.toFn * d) • basePoint := by
        rw [hsk, add_smul, add_sub_cancel_left]
    _ = d • basePoint := by
        rw [smul_smul, inv_mul_cancel_left₀ hg.toFn_r_ne_zero]

/-- The signature for a nonce with the inverse `v`. -/
lemma signWithNonce_eq_inl {d e v r s : U256} (hv : k.inverse.1 = .ok v)
    (hr : orderModulus.reduce p.x.value = r)
    (hs : orderModulus.mul v (orderModulus.add e (orderModulus.mul r d)) = s)
    (hi : p.isInfinity = false) (hr0 : r.isZero = false) (hs0 : s.isZero = false) :
    signWithNonce d e k p = .ok (.inl ⟨⟨r, s⟩, ⟨p.y.isOdd, p.x.value != r⟩⟩) := by
  unfold signWithNonce
  simp only [hi, hr, hr0, hv, bind, Except.bind, hs, hs0]
  rfl

/-- No signature if one of its components is zero. -/
lemma signWithNonce_eq_inr {d e v r s : U256} (hv : k.inverse.1 = .ok v)
    (hr : orderModulus.reduce p.x.value = r)
    (hs : orderModulus.mul v (orderModulus.add e (orderModulus.mul r d)) = s)
    (hi : p.isInfinity = false) (h : r.isZero = true ∨ s.isZero = true) :
    ∃ cause, signWithNonce d e k p = .ok (.inr cause) := by
  unfold signWithNonce
  rcases hr0 : r.isZero
  swap
  · exact ⟨.zeroR, by simp only [hi, hr, hr0]; rfl⟩
  rw [hr0] at h
  have hs0 := h.resolve_left Bool.false_ne_true
  exact ⟨.zeroS, by simp only [hi, hr, hr0, hv, bind, Except.bind, hs, hs0]; rfl⟩

/-- **The signature with the nonce `k`**, for the private key `d`: `r` is the residue of the
abscissa of `k * G`, and `s` is `(e + r * d) / k`. A nonce for which one of them is zero has no
signature. -/
noncomputable def signatureWith (d : Fn) (digest : Digest) (k : Fn) : Option Signed :=
  match k • basePoint with
  | .zero => none
  | .some x y _ =>
    let r : Fn := (x.val : Fn)
    let s : Fn := k⁻¹ * (digest.toFn + r * d)
    if r = 0 ∨ s = 0 then none
    else some ⟨⟨.ofFn r, .ofFn s⟩, ⟨decide (y.val % 2 = 1), decide (groupOrder ≤ x.val)⟩⟩

lemma order_le_iff (n : ℕ) : groupOrder ≤ n ↔ n ≠ n % groupOrder := by
  rw [← not_lt, ← Nat.mod_eq_iff_lt prime_groupOrder.ne_zero, eq_comm]

lemma bne_reduce_order {a r : U256} (hr : orderModulus.reduce a = r) :
    (a != r) = decide (groupOrder ≤ a.toNat) := by
  rw [Bool.eq_iff_iff, bne_iff_ne, decide_eq_true_iff, order_le_iff, ← U256.toNat_reduce_order, hr]
  exact not_congr ⟨congrArg U256.toNat, U256.toNat_inj⟩

/-- **A nonce gives its signature**, or a cause to try another one. -/
theorem signWithNonce_eq (d : Scalar) (digest : Digest) (hk : k.isPrivateKey = true)
    (hc : k.cachedInverse = none) (hp : p.Denotes (k.value.toNat • basePoint)) :
    match signatureWith d.value.toFn digest k.value.toFn with
    | none => ∃ cause, signWithNonce d.value digest.residue k p.toAffine = .ok (.inr cause)
    | some g => signWithNonce d.value digest.residue k p.toAffine = .ok (.inl g) := by
  obtain ⟨hk0, hkn⟩ := k.isPrivateKey_iff.mp hk
  obtain ⟨v, hv, hvz⟩ := Scalar.exists_inverse hk hc
  rw [U256.nsmul_eq_toFn_smul] at hp
  have hR0 : k.value.toFn • basePoint ≠ 0 :=
    smul_ne_zero (U256.toFn_ne_zero hk0 hkn) basePoint_ne_zero
  have hi : p.toAffine.isInfinity = false := by
    rw [hp.wellFormed.isInfinity_toAffine, hp.isInfinity_eq, decide_eq_false hR0]
  unfold signatureWith
  rcases hR : k.value.toFn • basePoint with _ | ⟨x, y, hn⟩
  · exact absurd hR hR0
  rw [hR] at hp
  obtain ⟨hx, hy⟩ := hp.toAffine_coordinates
  obtain ⟨r, hr⟩ : ∃ r, orderModulus.reduce p.toAffine.x.value = r := ⟨_, rfl⟩
  obtain ⟨s, hs⟩ : ∃ s, orderModulus.mul v
    (orderModulus.add digest.residue (orderModulus.mul r d.value)) = s := ⟨_, rfl⟩
  have hrn : r.toNat < groupOrder := by
    rw [← hr, U256.toNat_reduce_order]
    exact Nat.mod_lt _ prime_groupOrder.pos
  have hsn : s.toNat < groupOrder := by
    rw [← hs]
    exact U256.toNat_mul_order_lt _ _
  have hrz : (x.val : Fn) = r.toFn := by
    rw [U256.toFn, ← hr, U256.toNat_reduce_order, ZMod.natCast_mod, hx]
  have hsz : k.value.toFn⁻¹ * (digest.toFn + r.toFn * d.value.toFn) = s.toFn := by
    rw [← hs, U256.toFn_mul, U256.toFn_add digest.toNat_residue_lt (U256.toNat_mul_order_lt _ _),
      U256.toFn_mul, hvz, Digest.toFn_residue]
  have hzero : r.toFn = 0 ∨ s.toFn = 0 ↔ r.isZero = true ∨ s.isZero = true := by
    rw [U256.toFn_eq_zero_iff hrn, U256.toFn_eq_zero_iff hsn, U256.isZero_iff, U256.isZero_iff]
  dsimp only
  rw [hrz, hsz]
  by_cases h0 : r.toFn = 0 ∨ s.toFn = 0
  · rw [if_pos h0]
    exact signWithNonce_eq_inr hv hr hs hi (hzero.mp h0)
  · rw [if_neg h0]
    rw [hzero, not_or, Bool.not_eq_true, Bool.not_eq_true] at h0
    have hodd : p.toAffine.y.isOdd = decide (y.val % 2 = 1) := by
      rw [Bool.eq_iff_iff, hy, decide_eq_true_iff]
    dsimp only
    rw [signWithNonce_eq_inl hv hr hs hi h0.1 h0.2, U256.ofFn_toFn hrn, U256.ofFn_toFn hsn, hodd,
      bne_reduce_order hr, hx]

/-- **The signature with a nonce** certifies the key of `d`, and its id selects the nonce point. -/
theorem certifies_of_signatureWith {d k : Fn} (hk : k ≠ 0)
    (h : signatureWith d digest k = some g) : g.Certifies digest (d • basePoint) := by
  unfold signatureWith at h
  rcases hR : k • basePoint with _ | ⟨x, y, hn⟩
  · rw [hR] at h
    cases h
  rw [hR] at h
  dsimp only at h
  split at h
  · cases h
  next h0 =>
  rw [not_or] at h0
  obtain rfl := Option.some.inj h
  have hx : x.val % groupOrder = (U256.ofFn (x.val : Fn)).toNat := by
    rw [U256.toNat_ofFn, ZMod.val_natCast]
  have hg := Signature.inRange_ofFn h0.1 h0.2
  refine ⟨hg, .some x y hn, ?_, ?_⟩
  · have hred : groupOrder ≤ x.val ↔ x.val ≠ (U256.ofFn (x.val : Fn)).toNat := by
      rw [← hx, order_le_iff]
    rw [RecoveryId.selects_iff hx, decide_eq_decide.mpr hred]
  · rw [← hR]
    exact recoveredKey_of_nonce hg hk (by rw [U256.toFn_ofFn, U256.toFn_ofFn])

/-- **A nonce gives a signature of the digest**, or one of its components is zero. -/
theorem signWithNonce_spec (d : Scalar) (digest : Digest) (hk : k.isPrivateKey = true)
    (hc : k.cachedInverse = none) (hp : p.Denotes (k.value.toNat • basePoint)) :
    (∃ cause, signWithNonce d.value digest.residue k p.toAffine = .ok (.inr cause)) ∨
      ∃ g, signWithNonce d.value digest.residue k p.toAffine = .ok (.inl g) ∧
        g.Certifies digest (d.value.toFn • basePoint) := by
  obtain ⟨hk0, hkn⟩ := k.isPrivateKey_iff.mp hk
  have h := signWithNonce_eq d digest hk hc hp
  rcases hg : signatureWith d.value.toFn digest k.value.toFn with _ | g
  · rw [hg] at h
    exact .inl h
  · rw [hg] at h
    exact .inr ⟨g, h, certifies_of_signatureWith (U256.toFn_ne_zero hk0 hkn) hg⟩

/-! ### The canonical form -/

lemma Signed.normalize_of_isCanonical (h : g.signature.isCanonical = true) : g.normalize = g := by
  rw [normalize, if_pos h]

lemma Signed.normalize_of_not_isCanonical (h : ¬g.signature.isCanonical = true) :
    g.normalize = ⟨⟨g.signature.r, orderModulus.neg g.signature.s⟩, g.recoveryId.flip⟩ := by
  rw [normalize, if_neg h, Signature.normalize, if_neg h]

/-- The form with the smaller one of `s` and `n - s`. With `n - s` goes the opposite nonce point,
whose ordinate has the other parity. -/
def Signed.lowS (g : Signed) : Signed :=
  if g.signature.s.toNat ≤ groupOrder / 2 then g
  else ⟨⟨g.signature.r, .ofNat (groupOrder - g.signature.s.toNat)⟩,
    ⟨!g.recoveryId.yIsOdd, g.recoveryId.xIsReduced⟩⟩

/-- In range the normal form has the smaller `s`. -/
lemma Signed.normalize_eq_lowS (hg : g.signature.InRange) : g.normalize = g.lowS := by
  unfold lowS
  split
  · next h => exact normalize_of_isCanonical ((Signature.isCanonical_iff _).mpr h)
  · next h =>
    have hn : groupOrder < 2 ^ 256 := by decide
    have hs : orderModulus.neg g.signature.s = .ofNat (groupOrder - g.signature.s.toNat) := by
      refine U256.toNat_inj ?_
      rw [hg.toNat_neg_s, U256.toNat_ofNat ((Nat.sub_le _ _).trans_lt hn)]
    rw [normalize_of_not_isCanonical (mt (Signature.isCanonical_iff _).mp h), hs]
    rfl

/-- The normal form is canonical. -/
lemma Signed.toNat_s_normalize_le (hg : g.signature.InRange) :
    g.normalize.signature.s.toNat ≤ groupOrder / 2 := by
  by_cases h : g.signature.isCanonical = true
  · rwa [normalize_of_isCanonical h, ← Signature.isCanonical_iff]
  · rw [normalize_of_not_isCanonical h]
    rw [Signature.isCanonical_iff] at h
    dsimp only
    rw [hg.toNat_neg_s]
    omega

/-- **The normal form certifies the same key** with the opposite nonce point. -/
theorem Signed.Certifies.normalize (h : g.Certifies digest Q) :
    g.normalize.Certifies digest Q := by
  by_cases hc : g.signature.isCanonical = true
  · rwa [normalize_of_isCanonical hc]
  rw [normalize_of_not_isCanonical hc]
  obtain ⟨hg, R, hR, hkey⟩ := h
  refine ⟨⟨hg.r_pos, hg.r_lt, ?_, ?_⟩, -R, hR.flip, ?_⟩
  · exact hg.toNat_neg_s ▸ Nat.sub_pos_of_lt hg.s_lt
  · exact hg.toNat_neg_s ▸ Nat.sub_lt (hg.s_pos.trans hg.s_lt) hg.s_pos
  · have hs : (orderModulus.neg g.signature.s).toFn • -R = g.signature.s.toFn • R := by
      rw [U256.toFn_neg hg.s_lt.le, neg_smul_neg]
    rw [recoveredKey, hs]
    exact hkey

/-! ### Signing -/

variable [RandomSource σ]

/-- **Every attempt gives up or gives a signature** that certifies the key of `d`, in the form
that the settings ask for. The induction is on the attempts that are left. -/
theorem returns_signAttempts {config : Config} (hI : Invariant I) (hS : ∀ c, I c → c.Sound)
    (hconfig : ∀ c, I c → c.config = config) (d : Scalar) (digest : Digest)
    (attempts remaining : ℕ) :
    Returns I (signAttempts d.value digest.residue attempts remaining : Session σ Signed) fun g =>
      g.Certifies digest (d.value.toFn • basePoint) ∧
        (config.canonicalSignatures = true → g.signature.s.toNat ≤ groupOrder / 2) := by
  induction remaining with
  | zero => exact returns_throw
  | succ remaining ih =>
    unfold signAttempts
    refine (returns_randomScalar _).bind ?_
    rintro k ⟨hk, hc⟩
    refine (returns_multiplySecret hI hS k Point.denotes_generator).bind fun p hp => ?_
    rcases signWithNonce_spec d digest hk hc hp with ⟨cause, h⟩ | ⟨g, h, hg⟩
    · refine ensures_lift_ok h ?_
      exact (keeps_report _).returns_bind fun _ => ih
    · refine ensures_lift_ok h ?_
      refine ensures_stored_bind fun c hc => ?_
      refine (ensures_count hI _).keeps.returns_bind fun _ => ?_
      refine (keeps_report _).returns_bind fun _ => returns_pure ?_
      rw [hconfig c hc]
      split
      · exact ⟨hg.normalize, fun _ => Signed.toNat_s_normalize_le hg.inRange⟩
      · next hn => exact ⟨hg, fun h => absurd h hn⟩

theorem returns_signRecoverable {config : Config} (hI : Invariant I) (hS : ∀ c, I c → c.Sound)
    (hconfig : ∀ c, I c → c.config = config) (d : Scalar) (digest : Digest) :
    Returns I (signRecoverable d digest : Session σ Signed) fun g =>
      g.Certifies digest (d.value.toFn • basePoint) ∧
        (config.canonicalSignatures = true → g.signature.s.toNat ≤ groupOrder / 2) := by
  unfold signRecoverable
  refine (keeps_lift _).returns_bind fun _ => ?_
  exact ensures_stored_bind fun c _ => returns_signAttempts hI hS hconfig d digest _ _

/-- A nonce that gives a signature ends the attempts. -/
lemma run_signAttempts_of_nonce {d e : U256} {attempts remaining : ℕ} {s t u : State σ Context}
    {k : Scalar} {p : Point} {g : Signed}
    (hk : (randomScalar attempts).run s = (.ok k, t))
    (hp : (multiplySecret k .generator).run t = (.ok p, u))
    (hg : signWithNonce d e k p.toAffine = .ok (.inl g)) :
    ((signAttempts d e attempts (remaining + 1)).run s).1 =
      .ok (if u.store.config.canonicalSignatures then g.normalize else g) := by
  unfold signAttempts
  rw [run_bind, hk]
  dsimp only
  rw [run_bind, hp]
  dsimp only
  rw [hg, run_ok_bind]
  dsimp only
  rw [run_stored_bind]
  rfl

lemma run_signRecoverable {d : Scalar} (hd : d.isPrivateKey = true) (digest : Digest)
    (s : State σ Context) :
    (signRecoverable d digest).run s =
      (signAttempts d.value digest.residue s.store.config.maxAttempts.toNat
        s.store.config.maxAttempts.toNat).run s := by
  have h : requireScalar d.isPrivateKey "ecdsa::sign"
      "private key must satisfy 1 <= d < n" = .ok () := by rw [hd]; rfl
  unfold signRecoverable
  rw [h, run_ok_bind, run_stored_bind]

/-- **Signing, verifying and recovering agree.** Whatever the source of randomness does, and
whatever has happened to the contexts, a signature that is made is in range and in the form that
the settings ask for, it is valid for the public key in every context, and its id recovers the
public key. -/
theorem sign_verify_recover {d : Scalar} (hd : d.isPrivateKey = true) (digest : Digest)
    (s : State σ Context) (hs : Reachable s.store) {g : Signed}
    (h : ((signRecoverable d digest).run s).1 = .ok g) :
    g.signature.validate = .ok () ∧ g.signature.InRange ∧
      (s.store.config.canonicalSignatures = true → g.signature.s.toNat ≤ groupOrder / 2) ∧
      ∀ {τ : Type} (t : State τ Context), Reachable t.store →
        (∀ q : Point, q.Denotes (d.value.toNat • basePoint) →
          ((verify q digest g.signature).run t).1 = .ok ()) ∧
        ∃ q, ((recoverPublicKey digest g.signature g.recoveryId).run t).1 = .ok q ∧
          q.Denotes (d.value.toNat • basePoint) := by
  obtain ⟨hd0, hdn⟩ := d.isPrivateKey_iff.mp hd
  have hI := invariant_sound.and (invariant_fixed fun c _ => c = s.store.config)
  obtain ⟨hg, hcanonical⟩ := (returns_signRecoverable hI (fun _ h => h.1) (fun _ h => h.2) d
    digest s ⟨hs.sound, rfl⟩).1 g h
  have hQ : d.value.toFn • basePoint ≠ 0 :=
    smul_ne_zero (U256.toFn_ne_zero hd0 hdn) basePoint_ne_zero
  rw [U256.nsmul_eq_toFn_smul]
  refine ⟨Signature.validate_of_inRange hg.inRange, hg.inRange, hcanonical, fun t ht => ⟨?_, ?_⟩⟩
  · intro q hq
    exact (verify_eq_ok_iff hq digest g.signature t ht).mpr (hg.valid hQ)
  · obtain ⟨hr, R, hR, hkey⟩ := hg
    rw [← hkey] at hQ ⊢
    have hrec := recovers_of_reachable t ht digest g.signature g.recoveryId
    exact ((hrec.of_selects hr hR).resolve_left fun h0 => hQ h0.1).2

/-- A tape that spells the scalar 1. -/
def oneTape : Tape := ⟨(Array.replicate 31 0).push 1, .zero, 0⟩

lemma run_randomScalar_oneTape (n : ℕ) {ω : Type} (es : List Event) (c : ω) :
    (randomScalar (n + 1) : Engine Tape ω Scalar).run ⟨oneTape, es, c⟩ =
      (.ok ⟨.one, none, true⟩, ⟨{ oneTape with position := 32 }, es, c⟩) := by
  have h : (Scalar.ofBytes (oneTape.take 32).1.toList).toOption = some ⟨.one, none, true⟩ := by
    decide +kernel
  have hb : blockStep 32 oneTape = (.ok (oneTape.take 32).1, { oneTape with position := 32 }) := rfl
  rw [drawsBy_randomScalar]
  unfold scalarStep sampleStep
  simp only [hb, h]

lemma run_multiplySecret_one (t : Tape) (es : List Event) : ∃ es' n,
    (multiplySecret ⟨.one, none, true⟩ .generator).run ⟨t, es, ⟨.minimal, none, none, {}⟩⟩ =
      (.ok .generator, ⟨t, es', ⟨.minimal, none, none, n⟩⟩) := by
  unfold multiplySecret validatePoint countMultiplication count Multiplication.perform
  simp only [run_bind, run_stored, Config.minimal, run_pure, run_update, run_report]
  exact ⟨_, _, rfl⟩

lemma signWithNonce_one :
    signWithNonce .one zeroDigest.residue ⟨.one, none, true⟩ Point.generator.toAffine =
      .ok (.inl ⟨generatorSignature, ⟨false, false⟩⟩) := by
  have hv : (Scalar.inverse ⟨.one, none, true⟩).1 = .ok .one := by
    unfold Scalar.inverse
    simp only [Scalar.touch, U256.invert_order_one]
  have hr : orderModulus.reduce Parameters.generatorX = Parameters.generatorX := by decide +kernel
  have hs : orderModulus.mul .one (orderModulus.add zeroDigest.residue
      (orderModulus.mul Parameters.generatorX .one)) = Parameters.generatorX := by decide +kernel
  exact signWithNonce_eq_inl hv hr hs rfl (by decide) (by decide)

lemma run_signRecoverable_oneTape :
    ((signRecoverable ⟨.one, none, true⟩ zeroDigest).run
      (⟨oneTape, [], ⟨.minimal, none, none, {}⟩⟩ : State Tape Context)).1 =
        .ok ⟨generatorSignature, ⟨false, false⟩⟩ := by
  obtain ⟨es, n, hp⟩ := run_multiplySecret_one { oneTape with position := 32 } []
  rw [run_signRecoverable (by decide)]
  exact run_signAttempts_of_nonce (run_randomScalar_oneTape 63 _ _) hp signWithNonce_one

/-- With the private key 1, the nonce 1 and the digest 0 both components of the signature are the
abscissa of the generator. -/
theorem sign_verify_recover_oneTape :
    Scalar.isPrivateKey ⟨.one, none, true⟩ = true ∧ Reachable ⟨.minimal, none, none, {}⟩ ∧
      ∃ g : Signed, ((signRecoverable ⟨.one, none, true⟩ zeroDigest).run
          (⟨oneTape, [], ⟨.minimal, none, none, {}⟩⟩ : State Tape Context)).1 = .ok g ∧
        g.signature.validate = .ok () ∧
        ((verify .generator zeroDigest g.signature).run
          (⟨(), [], ⟨.minimal, none, none, {}⟩⟩ : State Unit Context)).1 = .ok () := by
  have hd : Scalar.isPrivateKey ⟨.one, none, true⟩ = true := by decide
  have hp : Point.generator.Denotes (U256.one.toNat • basePoint) := by
    rw [U256.toNat_one, one_nsmul]
    exact Point.denotes_generator
  obtain ⟨hval, -, -, hall⟩ := sign_verify_recover hd zeroDigest
    ⟨oneTape, [], ⟨.minimal, none, none, {}⟩⟩ reachable_minimal run_signRecoverable_oneTape
  exact ⟨hd, reachable_minimal, _, run_signRecoverable_oneTape, hval,
    (hall ⟨(), [], ⟨.minimal, none, none, {}⟩⟩ reachable_minimal).1 _ hp⟩

end Ecdsa

end Secp256k1
