import Secp256k1.Ecdsa.Basic
import Secp256k1.Proofs.Compression
import Secp256k1.Proofs.Scalars

/-!
The points that go with the first component of a signature.

An abscissa with the residue `r` is `r` itself or `r + n`, and there are two points for each
abscissa on the curve. A recovery id selects one of these candidates, and every candidate has
exactly one id.
-/

namespace Secp256k1

open WeierstrassCurve.Affine

namespace RecoveryId

/-- The abscissa of the nonce points that an id selects. -/
def abscissa (id : RecoveryId) (r : U256) : ℕ :=
  r.toNat + if id.xIsReduced then groupOrder else 0

/-- The id selects the point among those that go with `r`. -/
def Selects (id : RecoveryId) (r : U256) (R : CurvePoint) : Prop :=
  ∃ x y h, R = .some x y h ∧ x.val = id.abscissa r ∧ (y.val % 2 = 1 ↔ id.yIsOdd = true)

variable {id : RecoveryId} {r : U256} {R S : CurvePoint}

lemma Selects.unique (hR : id.Selects r R) (hS : id.Selects r S) : R = S := by
  obtain ⟨x, y, h, rfl, hx, hy⟩ := hR
  obtain ⟨x', y', h', rfl, hx', hy'⟩ := hS
  obtain rfl : x = x' := ZMod.val_injective _ (hx.trans hx'.symm)
  obtain rfl := y_eq_of_parity h h' (hy.trans hy'.symm)
  rfl

lemma abscissa_mod (id : RecoveryId) (hr : r.toNat < groupOrder) :
    id.abscissa r % groupOrder = r.toNat := by
  unfold abscissa
  cases id.xIsReduced
  · simpa using Nat.mod_eq_of_lt hr
  · simpa using Nat.mod_eq_of_lt hr

/-- The id of a point: the parity of the ordinate, and whether the abscissa was reduced. -/
lemma selects_iff {x y : Fp} {h : (curve (7 : Fp)).Nonsingular x y}
    (hx : x.val % groupOrder = r.toNat) :
    id.Selects r (.some x y h) ↔ id = ⟨decide (y.val % 2 = 1), decide (x.val ≠ r.toNat)⟩ := by
  have hlt := x.val_lt
  have hp : fieldPrime < 2 * groupOrder := by decide
  have hr : x.val = r.toNat ∨ x.val = r.toNat + groupOrder := by
    rw [Modulus.mod_eq_ite (hlt.trans hp)] at hx
    split at hx <;> omega
  have hn := prime_groupOrder.pos
  constructor
  · rintro ⟨x', y', h', e, hxa, hy⟩
    obtain ⟨rfl, rfl⟩ := Point.some.inj e
    have hodd : id.yIsOdd = decide (y.val % 2 = 1) := by
      rw [Bool.eq_iff_iff, ← hy, decide_eq_true_iff]
    have hred : id.xIsReduced = decide (x.val ≠ r.toNat) := by
      unfold abscissa at hxa
      split at hxa
      · next hid => simp [hid, hxa, hn.ne']
      · next hid => simp [hid, hxa]
    rw [← hodd, ← hred]
  · rintro rfl
    refine ⟨x, y, h, rfl, ?_, by rw [decide_eq_true_iff]⟩
    unfold abscissa
    rcases hr with hr | hr <;> simp [hr, hn.ne']

end RecoveryId

namespace Ecdsa

variable {id : RecoveryId} {r : U256} {R : CurvePoint} {p : Point}

lemma overflowingAdd_order (r : U256) : r.overflowingAdd orderModulus.value =
    (r.wrappingAdd orderModulus.value, decide (2 ^ 256 ≤ r.toNat + groupOrder)) := by
  have hc := U256.addCarry_snd r orderModulus.value
  rw [toNat_orderModulus] at hc
  rw [← hc]
  rfl

/-- The sum with the group order fits if it is below the prime: then it is below `2 ^ 256`. -/
lemma fits_eq_decide (r : U256) :
    (!decide (2 ^ 256 ≤ r.toNat + groupOrder) &&
      fieldModulus.contains (r.wrappingAdd orderModulus.value)) =
        decide (r.toNat + groupOrder < fieldPrime) := by
  have hp : fieldPrime < 2 ^ 256 := by decide
  rw [Bool.eq_iff_iff, Bool.and_eq_true, Bool.not_eq_true', decide_eq_false_iff_not,
    decide_eq_true_iff, Modulus.contains_iff, toNat_fieldModulus, U256.toNat_wrappingAdd,
    toNat_orderModulus, not_le]
  constructor
  · rintro ⟨hlt, h⟩
    rwa [Nat.mod_eq_of_lt hlt] at h
  · intro h
    have hlt := h.trans hp
    exact ⟨hlt, by rwa [Nat.mod_eq_of_lt hlt]⟩

/-- The abscissa is below the prime, or it is refused. -/
lemma nonceAbscissa_spec (hr : r.toNat < groupOrder) (id : RecoveryId) :
    (id.abscissa r < fieldPrime ∧ ∃ x, nonceAbscissa r id = .ok x ∧ x.toNat = id.abscissa r) ∨
      (id.xIsReduced = true ∧ fieldPrime ≤ r.toNat + groupOrder ∧ nonceAbscissa r id =
        .error (.invalidSignature "ecdsa::recover_public_key" "recovery id selects x >= p")) := by
  have hn : groupOrder < fieldPrime := by decide
  have hp : fieldPrime < 2 ^ 256 := by decide
  unfold nonceAbscissa RecoveryId.abscissa
  rcases id.xIsReduced
  · exact .inl ⟨by simpa using hr.trans hn, r, rfl, rfl⟩
  · simp only [if_true, overflowingAdd_order, fits_eq_decide, require]
    by_cases hlt : r.toNat + groupOrder < fieldPrime
    · rw [decide_eq_true hlt]
      refine .inl ⟨hlt, r.wrappingAdd orderModulus.value, rfl, ?_⟩
      rw [U256.toNat_wrappingAdd, toNat_orderModulus, Nat.mod_eq_of_lt (hlt.trans hp)]
    · rw [decide_eq_false hlt]
      exact .inr ⟨trivial, not_lt.mp hlt, rfl⟩

/-- **The nonce point** of an id is found if there is one. -/
theorem noncePoint_spec (hr : r.toNat < groupOrder) (id : RecoveryId) :
    (∃ p R, noncePoint r id = .ok p ∧ p.Denotes R ∧ id.Selects r R) ∨
      (noncePoint r id =
          .error (.invalidSignature "ecdsa::recover_public_key" "recovery id selects x >= p") ∧
        id.xIsReduced = true ∧ fieldPrime ≤ r.toNat + groupOrder) ∨
      (noncePoint r id =
          .error (.invalidSignature "ecdsa::recover_public_key" "no curve point for r") ∧
        id.abscissa r < fieldPrime ∧ ∀ y : Fp, y ^ 2 ≠ (id.abscissa r : Fp) ^ 3 + 7) := by
  unfold noncePoint
  rcases nonceAbscissa_spec hr id with ⟨hlt, x, hx, hxa⟩ | ⟨hid, hle, hx⟩
  · have hxp : x.toNat < fieldPrime := hxa ▸ hlt
    have hz : (⟨x⟩ : FieldElement).toZMod = (id.abscissa r : Fp) := by
      rw [FieldElement.toZMod, hxa]
    rw [hx, ← hz]
    simp only [bind, Except.bind, Point.ofCompressed_parityTag hxp]
    rcases Point.decompress_spec ((FieldElement.isCanonical_iff ⟨x⟩).mpr hxp) id.yIsOdd with
      ⟨q, y, hn, hq, hqP, hy⟩ | ⟨he, hno⟩
    · left
      rw [hq]
      refine ⟨q, _, rfl, hqP, _, y, hn, rfl, ?_, hy⟩
      rw [hz, ZMod.val_cast_of_lt hlt]
    · right; right
      rw [he]
      exact ⟨rfl, hlt, fun y hy => hno y ((nonsingular_iff_equation _ _).mpr hy)⟩
  · right; left
    rw [hx]
    exact ⟨rfl, hid, hle⟩

lemma exists_denotes_of_noncePoint (h : noncePoint r id = .ok p) : ∃ R, p.Denotes R := by
  unfold noncePoint at h
  obtain ⟨x, -, h⟩ := exists_of_bind_eq_ok h
  split at h
  · next q hq =>
    obtain rfl := Except.ok.inj h
    exact Point.exists_denotes_of_ofCompressed hq
  · cases h

end Ecdsa

end Secp256k1
