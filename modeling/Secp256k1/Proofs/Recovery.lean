import Secp256k1.Proofs.Verification

/-!
Recovery and verification are one relation.

A signature in range determines a key for each of its nonce points, and the signature is valid
for exactly these keys. So a key and its nonce point determine each other, and recovery gives
back each key under the id of its nonce point, and under no other id.
-/

namespace Secp256k1.Ecdsa

open WeierstrassCurve.Affine
open Engine Context

variable {σ : Type} {I : Context → Prop} {p q : Point} {Q R : CurvePoint} {digest : Digest}
  {g : Signature} {id : RecoveryId} {out : Except Error Point}

/-- The point `(s * R - e * G) / r`. -/
noncomputable def recoveredKey (R : CurvePoint) (digest : Digest) (g : Signature) : CurvePoint :=
  g.r.toFn⁻¹ • (g.s.toFn • R - digest.toFn • basePoint)

/-- Solving the equation of the scheme for the key. -/
lemma checkPoint_eq_iff (hg : g.InRange) :
    checkPoint Q digest g = R ↔ recoveredKey R digest g = Q := by
  have h : checkPoint Q digest g =
      g.s.toFn⁻¹ • (digest.toFn • basePoint + g.r.toFn • Q) := by
    rw [checkPoint, smul_add, smul_smul, smul_smul, mul_comm digest.toFn, mul_comm g.r.toFn]
  calc checkPoint Q digest g = R
      ↔ digest.toFn • basePoint + g.r.toFn • Q = g.s.toFn • R := by
        rw [h, inv_smul_eq_iff₀ hg.toFn_s_ne_zero]
    _ ↔ g.s.toFn • R - digest.toFn • basePoint = g.r.toFn • Q := by
        rw [sub_eq_iff_eq_add', eq_comm]
    _ ↔ recoveredKey R digest g = Q := by
        rw [recoveredKey, inv_smul_eq_iff₀ hg.toFn_r_ne_zero]

lemma recoveredKey_eq_zero_iff (hg : g.InRange) :
    recoveredKey R digest g = 0 ↔ g.s.toFn • R = digest.toFn • basePoint := by
  have hr := inv_ne_zero hg.toFn_r_ne_zero
  exact (smul_eq_zero.trans (or_iff_right hr)).trans sub_eq_zero

/-- The keys of a signature are the ones that its nonce points determine. -/
theorem valid_iff : Valid Q digest g ↔
    g.InRange ∧ Q ≠ 0 ∧ ∃ id R, RecoveryId.Selects id g.r R ∧ recoveredKey R digest g = Q := by
  constructor
  · rintro ⟨hg, hQ, x, y, h, hc, hx⟩
    exact ⟨hg, hQ, _, _, (RecoveryId.selects_iff hx).mpr rfl, (checkPoint_eq_iff hg).mp hc⟩
  · rintro ⟨hg, hQ, id, R, ⟨x, y, h, rfl, hx, -⟩, hR⟩
    refine ⟨hg, hQ, x, y, h, (checkPoint_eq_iff hg).mpr hR, ?_⟩
    rw [hx, id.abscissa_mod hg.r_lt]

/-! ### What recovery gives -/

/-- The outcomes of recovery. -/
inductive Recovers (digest : Digest) (g : Signature) (id : RecoveryId) :
    Except Error Point → Prop
  | outOfRange (hg : ¬g.InRange) : Recovers digest g id (.error g.rangeError)
  | beyondField (hg : g.InRange) (hid : id.xIsReduced = true)
      (hr : fieldPrime ≤ g.r.toNat + groupOrder) :
      Recovers digest g id
        (.error (.invalidSignature "ecdsa::recover_public_key" "recovery id selects x >= p"))
  | offCurve (hg : g.InRange) (hlt : id.abscissa g.r < fieldPrime)
      (hx : ∀ y : Fp, y ^ 2 ≠ (id.abscissa g.r : Fp) ^ 3 + 7) :
      Recovers digest g id
        (.error (.invalidSignature "ecdsa::recover_public_key" "no curve point for r"))
  | infinity (hg : g.InRange) (R : CurvePoint) (hR : id.Selects g.r R)
      (h0 : recoveredKey R digest g = 0) :
      Recovers digest g id (.error (.pointAtInfinity "ecdsa::recover_public_key"))
  | key (hg : g.InRange) (R : CurvePoint) (hR : id.Selects g.r R)
      (h0 : recoveredKey R digest g ≠ 0) (q : Point) (hq : q.Denotes (recoveredKey R digest g)) :
      Recovers digest g id (.ok q)

/-- **Recovery has no other outcomes**, whatever the settings and the cache are. -/
theorem ensures_recoverPublicKey (hI : Invariant I) (hS : ∀ c, I c → c.Sound) (digest : Digest)
    (g : Signature) (id : RecoveryId) :
    Ensures I (recoverPublicKey digest g id : Session σ Point) (Recovers digest g id) := by
  unfold recoverPublicKey
  by_cases hg : g.InRange
  swap
  · exact ensures_lift_error (Signature.validate_of_not_inRange hg) (.outOfRange hg)
  refine ensures_lift_ok (Signature.validate_of_inRange hg) ?_
  rcases noncePoint_spec hg.r_lt id with ⟨p, R, hp, hpR, hR⟩ | ⟨he, hid, hr⟩ | ⟨he, hlt, hx⟩
  · refine ensures_lift_ok hp ?_
    obtain ⟨w, hw, -, hwz⟩ := U256.exists_invert_order hg.toFn_r_ne_zero
    refine ensures_lift_ok hw ?_
    refine (yields_combine hI hS _ _ hpR).bind fun q hq => ?_
    have hkey : q.Denotes (recoveredKey R digest g) := by
      rw [U256.toFn_neg (U256.toNat_mul_order_lt _ _).le, U256.toFn_mul, U256.toFn_mul, hwz,
        Digest.toFn_residue] at hq
      convert hq using 1
      rw [recoveredKey, smul_sub, smul_smul, smul_smul, neg_smul, mul_comm g.s.toFn,
        mul_comm digest.toFn, neg_add_eq_sub]
    refine ensures_check ?_ ?_
    · intro hinf
      exact .infinity hg R hR (hkey.isInfinity_iff.mp hinf)
    · intro hinf
      exact ensures_pure (.key hg R hR (hkey.isInfinity_iff.not.mp hinf) q hkey)
  · exact ensures_lift_error he (.beyondField hg hid hr)
  · exact ensures_lift_error he (.offCurve hg hlt hx)

/-- If there is a nonce point, then recovery gets to the key that it determines. -/
lemma Recovers.of_selects (h : Recovers digest g id out) (hg : g.InRange)
    (hR : id.Selects g.r R) :
    recoveredKey R digest g = 0 ∧ out = .error (.pointAtInfinity "ecdsa::recover_public_key") ∨
      recoveredKey R digest g ≠ 0 ∧ ∃ q, out = .ok q ∧ q.Denotes (recoveredKey R digest g) := by
  cases h with
  | outOfRange h => exact absurd hg h
  | beyondField _ hid hr =>
    obtain ⟨x, y, h, rfl, hx, -⟩ := hR
    have hlt := x.val_lt
    rw [hx, RecoveryId.abscissa, hid, if_pos rfl] at hlt
    exact absurd hr hlt.not_ge
  | offCurve _ _ hno =>
    obtain ⟨x, y, h, rfl, hx, -⟩ := hR
    rw [← hx, ZMod.natCast_zmod_val] at hno
    exact absurd ((nonsingular_iff_equation _ _).mp h) (hno y)
  | infinity _ R' hR' h0 =>
    rw [hR.unique hR']
    exact .inl ⟨h0, rfl⟩
  | key _ R' hR' h0 q hq =>
    rw [hR.unique hR']
    exact .inr ⟨h0, q, rfl, hq⟩

lemma Recovers.error_cases {e : Error} (h : Recovers digest g id (.error e)) :
    e = g.rangeError ∧ ¬g.InRange ∨
      e = .invalidSignature "ecdsa::recover_public_key" "recovery id selects x >= p" ∧
        id.xIsReduced = true ∧ fieldPrime ≤ g.r.toNat + groupOrder ∨
      e = .invalidSignature "ecdsa::recover_public_key" "no curve point for r" ∧
        (∀ y : Fp, y ^ 2 ≠ (id.abscissa g.r : Fp) ^ 3 + 7) ∨
      e = .pointAtInfinity "ecdsa::recover_public_key" := by
  rcases h with hg | ⟨-, hid, hr⟩ | ⟨-, -, hx⟩ | _ | _
  · exact .inl ⟨rfl, hg⟩
  · exact .inr (.inl ⟨rfl, hid, hr⟩)
  · exact .inr (.inr (.inl ⟨rfl, hx⟩))
  · exact .inr (.inr (.inr rfl))

lemma Recovers.pointAtInfinity_iff (h : Recovers digest g id out) :
    out = .error (.pointAtInfinity "ecdsa::recover_public_key") ↔
      g.InRange ∧ ∃ R, id.Selects g.r R ∧ g.s.toFn • R = digest.toFn • basePoint := by
  constructor
  · intro he
    rcases h with _ | _ | _ | ⟨hg, R, hR, h0⟩ | _
    · cases he
    · cases he
    · cases he
    · exact ⟨hg, R, hR, (recoveredKey_eq_zero_iff hg).mp h0⟩
    · cases he
  · rintro ⟨hg, R, hR, h0⟩
    rcases h.of_selects hg hR with ⟨-, h⟩ | ⟨hne, -⟩
    · exact h
    · exact absurd ((recoveredKey_eq_zero_iff hg).mpr h0) hne

/-- What has been recovered is a key of the signature. -/
lemma Recovers.valid (h : Recovers digest g id (.ok q)) : ∃ Q, q.Denotes Q ∧ Valid Q digest g := by
  rcases h with _ | _ | _ | _ | ⟨hg, R, hR, h0, _, hq⟩
  exact ⟨_, hq, valid_iff.mpr ⟨hg, h0, id, R, hR, rfl⟩⟩

/-- A key of a signature is recovered under one id. -/
lemma exists_recovers_iff (hp : p.Denotes Q) (hv : Valid Q digest g) :
    ∃ id, ∀ id' out, Recovers digest g id' out →
      ((∃ q, out = .ok q ∧ q.equals p = true) ↔ id' = id) := by
  obtain ⟨hg, hQ, x, y, h, hc, hx⟩ := hv
  have hkey := (checkPoint_eq_iff hg).mp hc
  refine ⟨⟨decide (y.val % 2 = 1), decide (x.val ≠ g.r.toNat)⟩, ?_⟩
  intro id' out hout
  rw [← RecoveryId.selects_iff (h := h) hx]
  constructor
  · rintro ⟨q, rfl, he⟩
    rcases hout with _ | _ | _ | _ | ⟨-, R, hR, -, _, hq⟩
    have hRc := (checkPoint_eq_iff hg).mpr ((hq.equals_iff hp).mp he)
    rwa [← hc, hRc]
  · intro hR
    rcases hout.of_selects hg hR with ⟨h0, -⟩ | ⟨-, q, rfl, hq⟩
    · exact absurd (hkey.symm.trans h0) hQ
    · rw [hkey] at hq
      exact ⟨q, rfl, (hq.equals_iff hp).mpr rfl⟩

/-! ### Runs -/

/-- The outcome in a context that is reachable. -/
lemma recovers_of_reachable (s : State σ Context) (hs : Reachable s.store) (digest : Digest)
    (g : Signature) (id : RecoveryId) :
    Recovers digest g id ((recoverPublicKey digest g id).run s).1 :=
  (ensures_recoverPublicKey invariant_sound (fun _ h => h) digest g id s hs.sound).1

lemma verify_eq_ok_iff (hp : p.Denotes Q) (digest : Digest) (g : Signature) (s : State σ Context)
    (hs : Reachable s.store) : ((verify p digest g).run s).1 = .ok () ↔ Valid Q digest g := by
  rw [(ensures_verify invariant_sound (fun _ h => h) hp digest g s hs.sound).1]
  exact verdict_eq_ok_iff

/-- **Recovery and verification are the same relation**, also between different contexts. What
is recovered is a key of the signature; every key of a signature is recovered, under one id; and
recovery fails only where there is no nonce point, or no finite key for it. -/
theorem recovery_iff_verification (digest : Digest) (g : Signature) {σ τ : Type}
    (s : State σ Context) (t : State τ Context) (hs : Reachable s.store)
    (ht : Reachable t.store) :
    (∀ id q, ((recoverPublicKey digest g id).run s).1 = .ok q →
      q.WellFormed ∧ q.isInfinity = false ∧ q.isOnCurve = true ∧
        ((verify q digest g).run t).1 = .ok ()) ∧
    (∀ p : Point, p.WellFormed → p.isOnCurve = true → ((verify p digest g).run t).1 = .ok () →
      ∃! id, ∃ q, ((recoverPublicKey digest g id).run s).1 = .ok q ∧ q.equals p = true) ∧
    (∀ id e, ((recoverPublicKey digest g id).run s).1 = .error e →
      e = g.rangeError ∧ ¬g.InRange ∨
      e = .invalidSignature "ecdsa::recover_public_key" "recovery id selects x >= p" ∧
        id.xIsReduced = true ∧ fieldPrime ≤ g.r.toNat + groupOrder ∨
      e = .invalidSignature "ecdsa::recover_public_key" "no curve point for r" ∧
        (∀ y : Fp, y ^ 2 ≠ (id.abscissa g.r : Fp) ^ 3 + 7) ∨
      e = .pointAtInfinity "ecdsa::recover_public_key") ∧
    (∀ id, ((recoverPublicKey digest g id).run s).1 =
        .error (.pointAtInfinity "ecdsa::recover_public_key") ↔
      g.InRange ∧ ∃ R, id.Selects g.r R ∧ g.s.toFn • R = digest.toFn • basePoint) := by
  have hrec := recovers_of_reachable s hs digest g
  refine ⟨?_, ?_, ?_, ?_⟩
  · intro id q hq
    obtain ⟨Q, hqQ, hv⟩ := (hq ▸ hrec id).valid
    refine ⟨hqQ.wellFormed, ?_, hqQ.isOnCurve,
      (verify_eq_ok_iff hqQ digest g t ht).mpr hv⟩
    rw [hqQ.isInfinity_eq, decide_eq_false hv.key_ne_zero]
  · intro p hw hc hok
    obtain ⟨Q, hpQ⟩ := (Point.isOnCurve_iff hw).mp hc
    obtain ⟨id, hid⟩ := exists_recovers_iff hpQ ((verify_eq_ok_iff hpQ digest g t ht).mp hok)
    exact ⟨id, (hid id _ (hrec id)).mpr rfl, fun id' h => (hid id' _ (hrec id')).mp h⟩
  · intro id e he
    exact (he ▸ hrec id).error_cases
  · intro id
    exact (hrec id).pointAtInfinity_iff

/-- The generator is recovered under one id. -/
theorem recovery_generatorSignature :
    Reachable ⟨.minimal, none, none, {}⟩ ∧
      ∃! id, ∃ q, ((recoverPublicKey zeroDigest generatorSignature id).run
          (⟨(), [], ⟨.minimal, none, none, {}⟩⟩ : State Unit Context)).1 = .ok q ∧
        q.equals .generator = true := by
  let s : State Unit Context := ⟨(), [], ⟨.minimal, none, none, {}⟩⟩
  have hs : Reachable s.store := reachable_minimal
  have hp := Point.denotes_generator
  have hok := (verify_eq_ok_iff hp zeroDigest generatorSignature s hs).mpr valid_generatorSignature
  exact ⟨hs, (recovery_iff_verification zeroDigest generatorSignature s s hs hs).2.1 _
    hp.wellFormed hp.isOnCurve hok⟩

end Secp256k1.Ecdsa
