import Secp256k1.Ecdsa.Basic
import Secp256k1.Proofs.Bytes
import Secp256k1.Proofs.GroupOrder
import Secp256k1.Proofs.Powers

/-!
Scalars and digests as residues modulo the group order.
-/

namespace Secp256k1

/-! ### Arithmetic modulo the order -/

@[simp] lemma toNat_orderModulus : orderModulus.value.toNat = groupOrder := toNat_order

namespace U256

/-- The residue class of an integer modulo the group order. -/
def toFn (a : U256) : Fn := (a.toNat : Fn)

variable {a b : U256}

lemma toFn_eq_zero_iff (ha : a.toNat < groupOrder) : a.toFn = 0 ↔ a.toNat = 0 := by
  rw [toFn, ZMod.natCast_eq_zero_iff]
  exact ⟨fun h => Nat.eq_zero_of_dvd_of_lt h ha, fun h => h ▸ dvd_zero _⟩

lemma nsmul_eq_toFn_smul (a : U256) (P : CurvePoint) : a.toNat • P = a.toFn • P :=
  (natCast_smul a.toNat P).symm

lemma toNat_reduce_order (a : U256) : (orderModulus.reduce a).toNat = a.toNat % groupOrder := by
  rw [Modulus.toNat_reduce, toNat_orderModulus]

@[simp] lemma toFn_mul (a b : U256) : (orderModulus.mul a b).toFn = a.toFn * b.toFn := by
  rw [toFn, Modulus.toNat_mul, toNat_orderModulus, ZMod.natCast_mod, Nat.cast_mul, toFn, toFn]

lemma toNat_mul_order_lt (a b : U256) : (orderModulus.mul a b).toNat < groupOrder := by
  rw [← toNat_orderModulus]
  exact orderModulus.toNat_mul_lt a b

lemma toFn_add (ha : a.toNat < groupOrder) (hb : b.toNat < groupOrder) :
    (orderModulus.add a b).toFn = a.toFn + b.toFn := by
  rw [toFn, Modulus.toNat_add (by rwa [toNat_orderModulus]) (by rwa [toNat_orderModulus]),
    toNat_orderModulus, ZMod.natCast_mod, Nat.cast_add, toFn, toFn]

lemma toNat_neg_order (ha : a.toNat ≤ groupOrder) :
    (orderModulus.neg a).toNat = (groupOrder - a.toNat) % groupOrder := by
  rw [Modulus.toNat_neg (by rwa [toNat_orderModulus]), toNat_orderModulus]

lemma toFn_neg (ha : a.toNat ≤ groupOrder) : (orderModulus.neg a).toFn = -a.toFn := by
  rw [toFn, toNat_neg_order ha, ZMod.natCast_mod, Nat.cast_sub ha, ZMod.natCast_self, zero_sub,
    toFn]

lemma exists_invert_order (ha : a.toFn ≠ 0) :
    ∃ v, orderModulus.invert a = .ok v ∧ v.toNat < groupOrder ∧ v.toFn = a.toFn⁻¹ := by
  have h0 : a.toNat % orderModulus.value.toNat ≠ 0 := by
    rwa [toNat_orderModulus, ne_eq, ← Nat.dvd_iff_mod_eq_zero, ← ZMod.natCast_eq_zero_iff]
  obtain ⟨v, hv, hlt, hinv⟩ :=
    orderModulus.exists_invert_eq_ok (toNat_orderModulus ▸ prime_groupOrder) h0
  rw [toNat_orderModulus] at hlt
  exact ⟨v, hv, hlt, hinv⟩

lemma invert_order_one : orderModulus.invert .one = .ok .one := by
  have h1 : one.toFn = 1 := by rw [toFn, toNat_one, Nat.cast_one]
  obtain ⟨v, hv, hlt, hz⟩ := exists_invert_order (h1 ▸ one_ne_zero)
  rw [h1, inv_one, ← h1] at hz
  have hn : (1 : ℕ) < groupOrder := by decide
  have hmod := (ZMod.natCast_eq_natCast_iff' _ _ _).mp hz
  rw [Nat.mod_eq_of_lt hlt, toNat_one, Nat.mod_eq_of_lt hn] at hmod
  rw [hv, toNat_inj (hmod.trans toNat_one.symm)]

lemma nonzero_residue_iff (a : U256) :
    (!a.isZero && orderModulus.contains a) = true ↔ 0 < a.toNat ∧ a.toNat < groupOrder := by
  rw [Bool.and_eq_true, Bool.not_eq_true', isZero_eq_false_iff, Modulus.contains_iff,
    toNat_orderModulus, Nat.pos_iff_ne_zero]

lemma toFn_ne_zero (h0 : 0 < a.toNat) (hlt : a.toNat < groupOrder) : a.toFn ≠ 0 := by
  rw [ne_eq, toFn_eq_zero_iff hlt]
  exact h0.ne'

/-- The words of a natural number below `2 ^ 256`. -/
def ofNat (n : ℕ) : U256 :=
  ⟨n.toUInt64, (n / 2 ^ 64).toUInt64, (n / 2 ^ 128).toUInt64, (n / 2 ^ 192).toUInt64⟩

lemma toNat_ofNat {n : ℕ} (h : n < 2 ^ 256) : (ofNat n).toNat = n := by
  rw [toNat_eq_digits]
  simp only [ofNat, Nat.toUInt64_eq, UInt64.toNat_ofNat']
  omega

/-- The residue of a residue class. -/
def ofFn (a : Fn) : U256 := ofNat a.val

@[simp] lemma toNat_ofFn (a : Fn) : (ofFn a).toNat = a.val := by
  have hn : groupOrder < 2 ^ 256 := by decide
  exact toNat_ofNat (a.val_lt.trans hn)

@[simp] lemma toFn_ofFn (a : Fn) : (ofFn a).toFn = a := by
  rw [toFn, toNat_ofFn, ZMod.natCast_zmod_val]

lemma ofFn_toFn (ha : a.toNat < groupOrder) : ofFn a.toFn = a := by
  apply toNat_inj
  rw [toNat_ofFn, toFn, ZMod.val_cast_of_lt ha]

end U256

/-! ### Private keys -/

namespace Scalar

variable {k : Scalar}

lemma isPrivateKey_iff (k : Scalar) :
    k.isPrivateKey = true ↔ 0 < k.value.toNat ∧ k.value.toNat < groupOrder :=
  k.value.nonzero_residue_iff

/-- A private key has an inverse, which is computed if it is not remembered. -/
lemma exists_inverse (hk : k.isPrivateKey = true) (hc : k.cachedInverse = none) :
    ∃ v, k.inverse.1 = .ok v ∧ v.toFn = k.value.toFn⁻¹ := by
  obtain ⟨h0, hlt⟩ := k.isPrivateKey_iff.mp hk
  obtain ⟨v, hv, -, hvz⟩ := U256.exists_invert_order (U256.toFn_ne_zero h0 hlt)
  refine ⟨v, ?_, hvz⟩
  unfold inverse
  simp only [touch, hc, hv]

end Scalar

/-! ### Digests -/

namespace Ecdsa

/-- The integer that a digest stands for, as a residue. -/
def Digest.toFn (digest : Digest) : Fn := (bigEndian digest.toList : Fn)

lemma Digest.toNat_residue_lt (digest : Digest) : digest.residue.toNat < groupOrder := by
  rw [residue, U256.toNat_reduce_order]
  exact Nat.mod_lt _ prime_groupOrder.pos

@[simp] lemma Digest.toFn_residue (digest : Digest) : digest.residue.toFn = digest.toFn := by
  rw [U256.toFn, residue, U256.toNat_reduce_order, ZMod.natCast_mod, U256.toNat_ofBytes (by simp),
    toFn]

end Ecdsa

end Secp256k1
