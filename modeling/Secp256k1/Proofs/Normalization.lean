import Secp256k1.Proofs.Signing

/-!
The canonical form of a signature has the verdict of the signature.

Negating `s` negates the point to be checked and leaves its abscissa. This is said of every pair
of 256-bit integers: a component out of its range stays out of it, also where the subtraction
wraps around.
-/

namespace Secp256k1

open WeierstrassCurve.Affine
open Engine Context

/-- The opposite of an integer that need not be a residue. From the order on it is the order or
beyond, or zero. -/
lemma U256.toNat_neg_order_eq (a : U256) : (orderModulus.neg a).toNat =
    if a.toNat = 0 then 0 else if a.toNat ≤ groupOrder then groupOrder - a.toNat
      else 2 ^ 256 + groupOrder - a.toNat := by
  have ha := a.toNat_lt_two_pow
  have hn : groupOrder < 2 ^ 256 := by decide
  have hsub := U256.toNat_wrappingSub orderModulus.value a
  rw [toNat_orderModulus] at hsub
  unfold Modulus.neg
  split_ifs with hz h0 hle h0 hle
  · rfl
  · exact absurd ((U256.isZero_iff a).mp hz) h0
  · exact absurd ((U256.isZero_iff a).mp hz) h0
  · exact absurd ((U256.isZero_iff a).mpr h0) hz
  · omega
  · omega

/-- Negation takes the integers in range to each other, and no other integer into the range. -/
lemma U256.neg_order_inRange_iff (a : U256) :
    0 < (orderModulus.neg a).toNat ∧ (orderModulus.neg a).toNat < groupOrder ↔
      0 < a.toNat ∧ a.toNat < groupOrder := by
  have ha := a.toNat_lt_two_pow
  rw [U256.toNat_neg_order_eq]
  split_ifs <;> omega

namespace Signature

variable {g : Signature}

lemma normalize_of_isCanonical (h : g.isCanonical = true) : g.normalize = g := by
  rw [normalize, if_pos h]

lemma normalize_of_not_isCanonical (h : ¬g.isCanonical = true) :
    g.normalize = ⟨g.r, orderModulus.neg g.s⟩ := by
  rw [normalize, if_neg h]

@[simp] lemma r_normalize (g : Signature) : g.normalize.r = g.r := by
  unfold normalize
  split <;> rfl

/-! ### Ranges -/

lemma inRange_iff (g : Signature) : g.InRange ↔
    (0 < g.r.toNat ∧ g.r.toNat < groupOrder) ∧ 0 < g.s.toNat ∧ g.s.toNat < groupOrder :=
  ⟨fun h => ⟨⟨h.r_pos, h.r_lt⟩, h.s_pos, h.s_lt⟩, fun h => ⟨h.1.1, h.1.2, h.2.1, h.2.2⟩⟩

lemma inRange_normalize_iff (g : Signature) : g.normalize.InRange ↔ g.InRange := by
  by_cases h : g.isCanonical = true
  · rw [normalize_of_isCanonical h]
  · rw [normalize_of_not_isCanonical h, inRange_iff, inRange_iff, U256.neg_order_inRange_iff]

lemma rangeError_normalize (g : Signature) : g.normalize.rangeError = g.rangeError := by
  unfold rangeError
  rw [r_normalize]

/-- **Normalizing** does not change what validation says. -/
theorem validate_normalize (g : Signature) : g.normalize.validate = g.validate := by
  by_cases h : g.InRange
  · rw [validate_of_inRange h, validate_of_inRange (g.inRange_normalize_iff.mpr h)]
  · rw [validate_of_not_inRange h, validate_of_not_inRange (mt g.inRange_normalize_iff.mp h),
      g.rangeError_normalize]

lemma inRange_of_validate (h : g.validate = .ok ()) : g.InRange := by
  by_contra hg
  rw [validate_of_not_inRange hg] at h
  cases h

/-! ### Canonical signatures -/

/-- The order is odd, so one of `s` and `n - s` is at most half of it. -/
lemma InRange.isCanonical_neg (h : g.InRange) :
    isCanonical ⟨g.r, orderModulus.neg g.s⟩ = !g.isCanonical := by
  have hodd : groupOrder % 2 = 1 := by decide
  have hpos := h.s_pos
  have hlt := h.s_lt
  rw [Bool.eq_iff_iff, Bool.not_eq_true', ← Bool.not_eq_true, isCanonical_iff, isCanonical_iff,
    h.toNat_neg_s]
  omega

lemma InRange.isCanonical_normalize (h : g.InRange) : g.normalize.isCanonical = true := by
  by_cases hc : g.isCanonical = true
  · rwa [normalize_of_isCanonical hc]
  · rw [normalize_of_not_isCanonical hc, h.isCanonical_neg, Bool.not_eq_true']
    exact Bool.eq_false_iff.mpr hc

end Signature

/-! ### Verdicts -/

namespace Ecdsa

variable {Q : CurvePoint} {digest : Digest} {g g' : Signature}

/-- The point to be checked is the same one, or the opposite one. -/
lemma checkPoint_normalize (hg : g.InRange) : checkPoint Q digest g.normalize =
    checkPoint Q digest g ∨ checkPoint Q digest g.normalize = -checkPoint Q digest g := by
  by_cases h : g.isCanonical = true
  · rw [Signature.normalize_of_isCanonical h]
    exact .inl rfl
  · right
    rw [Signature.normalize_of_not_isCanonical h]
    unfold checkPoint
    dsimp only
    rw [U256.toFn_neg hg.s_lt.le, inv_neg, mul_neg, mul_neg, neg_smul, neg_smul, neg_add]

/-- Validity depends on the abscissa of the point to be checked only. -/
lemma Valid.of_checkPoint (h : Valid Q digest g) (hg' : g'.InRange) (hr : g'.r = g.r)
    (hc : checkPoint Q digest g' = checkPoint Q digest g ∨
      checkPoint Q digest g' = -checkPoint Q digest g) : Valid Q digest g' := by
  obtain ⟨x, y, hn, hxy, hx⟩ := h.equation
  refine ⟨hg', h.key_ne_zero, ?_⟩
  rw [hxy, Point.neg_some] at hc
  rw [hr, ← hx]
  rcases hc with hc | hc
  · exact ⟨_, _, _, hc, rfl⟩
  · exact ⟨_, _, _, hc, rfl⟩

lemma valid_normalize_iff (hg : g.InRange) :
    Valid Q digest g.normalize ↔ Valid Q digest g := by
  have hc : checkPoint Q digest g.normalize = checkPoint Q digest g ∨
      checkPoint Q digest g.normalize = -checkPoint Q digest g := checkPoint_normalize hg
  have hc' : checkPoint Q digest g = checkPoint Q digest g.normalize ∨
      checkPoint Q digest g = -checkPoint Q digest g.normalize :=
    hc.imp Eq.symm fun h => by rw [h, neg_neg]
  refine ⟨fun h => h.of_checkPoint hg g.r_normalize.symm hc', fun h => ?_⟩
  exact h.of_checkPoint (g.inRange_normalize_iff.mpr hg) g.r_normalize hc

/-- **The canonical form has the same verdict.** -/
theorem verdict_normalize (Q : CurvePoint) (digest : Digest) (g : Signature) :
    verdict Q digest g.normalize = verdict Q digest g := by
  by_cases hg : g.InRange
  swap
  · rw [verdict, verdict, if_pos hg, if_pos (mt g.inRange_normalize_iff.mp hg),
      g.rangeError_normalize]
  have hg' := g.inRange_normalize_iff.mpr hg
  by_cases hQ : Q = 0
  · rw [verdict, verdict, if_neg (not_not.mpr hg), if_neg (not_not.mpr hg'), if_pos hQ, if_pos hQ]
  by_cases hv : Valid Q digest g
  · rw [verdict_eq_ok_iff.mpr hv, verdict_eq_ok_iff.mpr ((valid_normalize_iff hg).mpr hv)]
  · rw [verdict_of_not_valid hg hQ hv,
      verdict_of_not_valid hg' hQ (mt (valid_normalize_iff hg).mp hv)]

/-- **Normalizing preserves verdicts**, of every pair of 256-bit integers: of validation, and of
verification for every key of the curve, in any two contexts. What validates has a canonical
form, which is its own; and of `s` and `n - s` exactly one is canonical. -/
theorem normalize_preserves_verdicts (g : Signature) :
    g.normalize.r = g.r ∧ g.normalize.validate = g.validate ∧
      (∀ p : Point, p.WellFormed → p.isOnCurve = true → ∀ (digest : Digest) {σ τ : Type}
        (s : State σ Context) (t : State τ Context), Reachable s.store → Reachable t.store →
          ((verify p digest g.normalize).run s).1 = ((verify p digest g).run t).1) ∧
      (g.validate = .ok () →
        g.normalize.isCanonical = true ∧ g.normalize.normalize = g.normalize ∧
          (orderModulus.neg g.s).toNat = groupOrder - g.s.toNat ∧
          Signature.isCanonical ⟨g.r, orderModulus.neg g.s⟩ = !g.isCanonical) := by
  refine ⟨g.r_normalize, g.validate_normalize, ?_, ?_⟩
  · intro p hp hc digest σ τ s t hs ht
    obtain ⟨Q, hQ⟩ := (Point.isOnCurve_iff hp).mp hc
    have hS : ∀ c : Context, c.Sound → c.Sound := fun _ h => h
    calc ((verify p digest g.normalize).run s).1
        = verdict Q digest g.normalize := (ensures_verify invariant_sound hS hQ _ _ s hs.sound).1
      _ = verdict Q digest g := verdict_normalize Q digest g
      _ = ((verify p digest g).run t).1 :=
        (ensures_verify invariant_sound hS hQ _ _ t ht.sound).1.symm
  · intro hval
    have hg := Signature.inRange_of_validate hval
    have hc := hg.isCanonical_normalize
    exact ⟨hc, Signature.normalize_of_isCanonical hc, hg.toNat_neg_s, hg.isCanonical_neg⟩

/-- The signature for the key and the nonce 1 with the larger one of both values of `s`. -/
theorem normalize_preserves_verdicts_generator :
    let g : Signature := ⟨Parameters.generatorX, orderModulus.neg Parameters.generatorX⟩
    g.isCanonical = false ∧ g.normalize = generatorSignature ∧ g.validate = .ok () ∧
      g.normalize.normalize = g.normalize ∧
      ((verify .generator zeroDigest g).run
        (⟨(), [], ⟨.minimal, none, none, {}⟩⟩ : State Unit Context)).1 = .ok () := by
  intro g
  have hnormalize : g.normalize = generatorSignature := by decide +kernel
  obtain ⟨-, hvalidate, hverify, hcanonical⟩ := normalize_preserves_verdicts g
  have hval : g.validate = .ok () := by
    rw [← hvalidate, hnormalize, Signature.validate_of_inRange inRange_generatorSignature]
  have hG := Point.denotes_generator
  have hrun := hverify _ hG.wellFormed hG.isOnCurve zeroDigest
    (⟨(), [], ⟨.minimal, none, none, {}⟩⟩ : State Unit Context)
    (⟨(), [], ⟨.minimal, none, none, {}⟩⟩ : State Unit Context) reachable_minimal reachable_minimal
  refine ⟨by decide +kernel, hnormalize, hval, (hcanonical hval).2.1, ?_⟩
  rw [← hrun, hnormalize]
  have hok := (ensures_verify invariant_sound (fun _ h => h) hG zeroDigest generatorSignature
    (⟨(), [], ⟨.minimal, none, none, {}⟩⟩ : State Unit Context) reachable_minimal.sound).1
  rw [hok, verdict_eq_ok_iff]
  exact valid_generatorSignature

end Ecdsa

end Secp256k1
