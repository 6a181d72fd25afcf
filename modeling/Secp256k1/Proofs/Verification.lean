import Secp256k1.Proofs.Histories

/-!
Verification decides the equation of the scheme.

For a key `Q`, a digest with the residue `e`, and a signature `(r, s)` in range, the point
`(e / s) * G + (r / s) * Q` must have an abscissa with the residue `r`. The other outcomes are
refusals, in a fixed order: a component out of range, a key at infinity, a signature that is
not valid.
-/

namespace Secp256k1

open WeierstrassCurve.Affine
open Engine Context

namespace Signature

/-- Both components are in `[1, n - 1]`. -/
structure InRange (g : Signature) : Prop where
  r_pos : 0 < g.r.toNat
  r_lt : g.r.toNat < groupOrder
  s_pos : 0 < g.s.toNat
  s_lt : g.s.toNat < groupOrder

/-- What is said of components out of their range: the first one has precedence. -/
def rangeError (g : Signature) : Error :=
  .invalidSignature "Signature::validate"
    (if 0 < g.r.toNat ∧ g.r.toNat < groupOrder then "s is outside [1, n - 1]"
    else "r is outside [1, n - 1]")

variable {g : Signature}

lemma validate_of_inRange (h : g.InRange) : g.validate = .ok () := by
  unfold validate require
  simp only [U256.nonzero_residue_iff]
  rw [if_pos ⟨h.r_pos, h.r_lt⟩, if_pos ⟨h.s_pos, h.s_lt⟩]
  rfl

lemma validate_of_not_inRange (h : ¬g.InRange) : g.validate = .error g.rangeError := by
  unfold validate require rangeError
  simp only [U256.nonzero_residue_iff]
  by_cases hr : 0 < g.r.toNat ∧ g.r.toNat < groupOrder
  · have hs : ¬(0 < g.s.toNat ∧ g.s.toNat < groupOrder) := fun hs => h ⟨hr.1, hr.2, hs.1, hs.2⟩
    rw [if_pos hr, if_neg hs, if_pos hr]
    rfl
  · rw [if_neg hr, if_neg hr]
    rfl

lemma InRange.toFn_r_ne_zero (h : g.InRange) : g.r.toFn ≠ 0 := U256.toFn_ne_zero h.r_pos h.r_lt

lemma InRange.toFn_s_ne_zero (h : g.InRange) : g.s.toFn ≠ 0 := U256.toFn_ne_zero h.s_pos h.s_lt

end Signature

namespace Ecdsa

variable {σ : Type} {I : Context → Prop} {p : Point} {P Q : CurvePoint} {digest : Digest}
  {g : Signature}

/-- The point `(e / s) * G + (r / s) * Q`. -/
noncomputable def checkPoint (Q : CurvePoint) (digest : Digest) (g : Signature) : CurvePoint :=
  (digest.toFn * g.s.toFn⁻¹) • basePoint + (g.r.toFn * g.s.toFn⁻¹) • Q

/-- **The equation of the scheme**: a signature is valid for a key and a digest if the point
has an abscissa with the residue `r`. -/
structure Valid (Q : CurvePoint) (digest : Digest) (g : Signature) : Prop where
  inRange : g.InRange
  key_ne_zero : Q ≠ 0
  equation : ∃ x y h, checkPoint Q digest g = .some x y h ∧ x.val % groupOrder = g.r.toNat

open Classical in
/-- The answer that the scheme prescribes. -/
noncomputable def verdict (Q : CurvePoint) (digest : Digest) (g : Signature) : Except Error Unit :=
  if ¬g.InRange then .error g.rangeError
  else if Q = 0 then .error (.pointAtInfinity "EccContext::validate_public_key")
  else if Valid Q digest g then .ok ()
  else .error (.verificationFailed "ecdsa::verify")

lemma verdict_eq_ok_iff : verdict Q digest g = .ok () ↔ Valid Q digest g := by
  unfold verdict
  constructor
  · intro h
    split at h
    · cases h
    split at h
    · cases h
    split at h
    · assumption
    · cases h
  · intro h
    rw [if_neg (not_not.mpr h.inRange), if_neg h.key_ne_zero, if_pos h]

lemma yields_combine (hI : Invariant I) (hS : ∀ c, I c → c.Sound) (u₁ u₂ : U256)
    (hp : p.Denotes P) :
    Yields I (combine u₁ u₂ p : Session σ Point) fun q =>
      q.Denotes (u₁.toFn • basePoint + u₂.toFn • P) := by
  unfold combine
  refine (yields_multiplyGenerator hI hS u₁).bind fun a ha => ?_
  refine (yields_multiply hI hS u₂ hp).bind fun b hb => ?_
  obtain ⟨q, hq, hqP⟩ := ha.add hb
  rw [U256.nsmul_eq_toFn_smul, U256.nsmul_eq_toFn_smul] at hqP
  rw [hq]
  exact ensures_lift ⟨q, rfl, hqP⟩

lemma verdict_of_not_valid (hg : g.InRange) (hQ : Q ≠ 0) (h : ¬Valid Q digest g) :
    verdict Q digest g = .error (.verificationFailed "ecdsa::verify") := by
  rw [verdict, if_neg (not_not.mpr hg), if_neg hQ, if_neg h]

/-- The equation, read off a representative of the point to be checked. -/
lemma valid_iff_of_denotes {q : Point} (hg : g.InRange) (hQ : Q ≠ 0)
    (hq : q.Denotes (checkPoint Q digest g)) : Valid Q digest g ↔
      q.isInfinity = false ∧ orderModulus.reduce q.toAffine.x.value = g.r := by
  constructor
  · rintro ⟨-, -, x, y, h, hc, hx⟩
    rw [hc] at hq
    refine ⟨?_, U256.toNat_inj ?_⟩
    · rw [hq.isInfinity_eq, decide_eq_false (Point.some_ne_zero h)]
    · rw [U256.toNat_reduce_order, hq.toAffine_coordinates.1, hx]
  · rintro ⟨hinf, hr⟩
    rcases hc : checkPoint Q digest g with _ | ⟨x, y, h⟩
    · rw [hq.isInfinity_iff.mpr hc] at hinf
      cases hinf
    · rw [hc] at hq
      refine ⟨hg, hQ, x, y, h, hc, ?_⟩
      rw [← hq.toAffine_coordinates.1, ← U256.toNat_reduce_order, hr]

/-- **Verification gives the answer of the scheme**, whatever the settings and the cache are. -/
theorem ensures_verify (hI : Invariant I) (hS : ∀ c, I c → c.Sound) (hp : p.Denotes Q)
    (digest : Digest) (g : Signature) :
    Ensures I (verify p digest g : Session σ Unit) fun r => r = verdict Q digest g := by
  unfold verify
  refine (ensures_count hI _).seq ?_
  by_cases hg : g.InRange
  swap
  · refine ensures_lift_error (Signature.validate_of_not_inRange hg) ?_
    rw [verdict, if_pos hg]
  refine ensures_lift_ok (Signature.validate_of_inRange hg) ?_
  by_cases hQ : Q = 0
  · refine (ensures_validatePublicKey hI hp).bind ?_ ?_
    · intro a ha
      rw [if_pos hQ] at ha
      cases ha
    · intro e he
      rw [he, if_pos hQ, verdict, if_neg (not_not.mpr hg), if_pos hQ]
  refine Ensures.seq ((ensures_validatePublicKey hI hp).mono ?_) ?_
  · intro r hr
    rwa [if_neg hQ] at hr
  obtain ⟨w, hw, -, hwz⟩ := U256.exists_invert_order hg.toFn_s_ne_zero
  refine ensures_lift_ok hw ?_
  refine (yields_combine hI hS _ _ hp).bind fun q hq => ?_
  rw [U256.toFn_mul, U256.toFn_mul, hwz, Digest.toFn_residue] at hq
  have hv := valid_iff_of_denotes hg hQ hq
  refine ensures_check ?_ ?_
  · intro hinf
    refine (verdict_of_not_valid hg hQ fun h => ?_).symm
    exact absurd (hinf.symm.trans (hv.mp h).1) (by decide)
  · intro hinf
    by_cases hr : orderModulus.reduce q.toAffine.x.value = g.r
    · rw [if_neg (by simpa using hr)]
      exact ensures_pure (verdict_eq_ok_iff.mpr (hv.mpr ⟨Bool.eq_false_iff.mpr hinf, hr⟩)).symm
    · rw [if_pos (by simpa using hr)]
      exact ensures_throw (verdict_of_not_valid hg hQ fun h => hr (hv.mp h).2).symm

/-- **Verification decides the equation of the scheme.** Its answer on a point of the curve
depends on the element of the group, the digest and the signature only: not on the settings of
the context, its cache, or what has happened to it. -/
theorem verify_eq_verdict (hp : p.WellFormed) (hc : p.isOnCurve = true) (digest : Digest)
    (g : Signature) :
    ∃ Q, p.Denotes Q ∧ (verdict Q digest g = .ok () ↔ Valid Q digest g) ∧
      ∀ {σ : Type} (s : State σ Context), Reachable s.store →
        ((verify p digest g).run s).1 = verdict Q digest g := by
  obtain ⟨Q, hQ⟩ := (Point.isOnCurve_iff hp).mp hc
  refine ⟨Q, hQ, verdict_eq_ok_iff, ?_⟩
  intro σ s hs
  exact (ensures_verify invariant_sound (fun _ h => h) hQ digest g s hs.sound).1

/-- The digest with the residue 0. -/
def zeroDigest : Digest := Vector.replicate 32 0

/-- A signature with equal components, which are the abscissa of the generator. On the digest
with the residue 0 the point to be checked is the key itself. -/
def generatorSignature : Signature := ⟨Parameters.generatorX, Parameters.generatorX⟩

lemma inRange_generatorSignature : generatorSignature.InRange := by
  constructor <;> decide

lemma toFn_zeroDigest : zeroDigest.toFn = 0 := by
  have h : bigEndian zeroDigest.toList = 0 := by decide
  rw [Digest.toFn, h, Nat.cast_zero]

lemma checkPoint_generatorSignature (Q : CurvePoint) :
    checkPoint Q zeroDigest generatorSignature = Q := by
  have h : generatorSignature.s.toFn ≠ 0 := inRange_generatorSignature.toFn_s_ne_zero
  rw [checkPoint, toFn_zeroDigest, zero_mul, zero_smul Fn basePoint, zero_add]
  exact (congrArg (· • Q) (mul_inv_cancel₀ h)).trans (one_smul Fn Q)

lemma valid_generatorSignature : Valid basePoint zeroDigest generatorSignature where
  inRange := inRange_generatorSignature
  key_ne_zero := basePoint_ne_zero
  equation := by
    refine ⟨_, _, nonsingular_generator, checkPoint_generatorSignature basePoint, ?_⟩
    have hx := FieldElement.val_toZMod Point.denotes_generator.wellFormed.x_canonical
    exact (congrArg (· % groupOrder) hx).trans
      (Nat.mod_eq_of_lt inRange_generatorSignature.r_lt)

/-- The generator is the key of the signature in a context with the least settings. -/
theorem verify_generatorSignature :
    Point.generator.WellFormed ∧ Point.generator.isOnCurve = true ∧
      ((verify .generator zeroDigest generatorSignature).run
        (⟨(), [], ⟨.minimal, none, none, {}⟩⟩ : State Unit Context)).1 = .ok () := by
  have hw := Point.denotes_generator.wellFormed
  have hc := Point.denotes_generator.isOnCurve
  refine ⟨hw, hc, ?_⟩
  obtain ⟨Q, hQ, hok, hrun⟩ := verify_eq_verdict hw hc zeroDigest generatorSignature
  rw [hrun _ reachable_minimal, hok, hQ.unique Point.denotes_generator]
  exact valid_generatorSignature

end Ecdsa

end Secp256k1
