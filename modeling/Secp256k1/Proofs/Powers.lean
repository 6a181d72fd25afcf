import Mathlib.FieldTheory.Finite.Basic
import Secp256k1.Proofs.Folding

/-!
Powers modulo an integer of exactly 256 bits, and inverses modulo a prime.

The bits of the exponent are taken from the top one down, so that what has been taken so far is
the exponent of the power that has been reached. An inverse is a power, by Fermat's theorem.
-/

namespace Secp256k1.Modulus

variable (m : Modulus)

/-! ### Powers -/

variable {m} in
lemma toNat_powBits_lt (base exp : U256) (i : ℕ) {acc : U256} (h : acc.toNat < m.value.toNat) :
    (m.powBits base exp i acc).toNat < m.value.toNat := by
  induction i generalizing acc with
  | zero => exact h
  | succ i ih =>
    rw [powBits]
    apply ih
    split
    · exact toNat_mul_lt m _ _
    · exact toNat_mul_lt m _ _

/-- Each round squares what was raised so far and appends one bit to its exponent. -/
lemma toNat_powBits_modEq (base exp : U256) (i : ℕ) (acc : U256) :
    (m.powBits base exp i acc).toNat ≡
      acc.toNat ^ 2 ^ i * base.toNat ^ (exp.toNat % 2 ^ i) [MOD m.value.toNat] := by
  induction i generalizing acc with
  | zero => simp [powBits, Nat.mod_one, Nat.ModEq.refl]
  | succ i ih =>
    rw [powBits]
    refine (ih _).trans ?_
    have hsq : (m.square acc).toNat ≡ acc.toNat ^ 2 [MOD m.value.toNat] := by
      rw [square, toNat_mul, sq]
      exact Nat.mod_modEq _ _
    have hmod : exp.toNat % 2 ^ (i + 1) =
        2 ^ i * (exp.toNat.testBit i).toNat + exp.toNat % 2 ^ i := by
      rw [Nat.mod_pow_succ, Nat.toNat_testBit, Nat.add_comm]
    rw [U256.bit_eq_testBit, hmod]
    cases hb : exp.toNat.testBit i
    · have e : acc.toNat ^ 2 ^ (i + 1) = (acc.toNat ^ 2) ^ 2 ^ i := by
        rw [← pow_mul, ← pow_succ']
      rw [e]
      simpa using (hsq.pow (2 ^ i)).mul_right _
    · have hm : (m.mul (m.square acc) base).toNat ≡
          acc.toNat ^ 2 * base.toNat [MOD m.value.toNat] := by
        rw [toNat_mul]
        exact (Nat.mod_modEq _ _).trans (hsq.mul_right _)
      have e : acc.toNat ^ 2 ^ (i + 1) * base.toNat ^ (2 ^ i * true.toNat + exp.toNat % 2 ^ i) =
          (acc.toNat ^ 2 * base.toNat) ^ 2 ^ i * base.toNat ^ (exp.toNat % 2 ^ i) := by
        rw [mul_pow, ← pow_mul, ← pow_succ', pow_add base.toNat, Bool.toNat_true, Nat.mul_one,
          Nat.mul_assoc]
      rw [e]
      exact (hm.pow (2 ^ i)).mul_right _

/-- **A power is the residue of the power**, whether the base is a residue or not. -/
theorem toNat_pow (base exp : U256) :
    (m.pow base exp).toNat = base.toNat ^ exp.toNat % m.value.toNat := by
  have h := m.two_pow_le
  have hlt : (m.pow base exp).toNat < m.value.toNat :=
    toNat_powBits_lt _ _ _ (by rw [U256.toNat_one]; omega)
  have he := m.toNat_powBits_modEq (m.reduce base) exp exp.bitLength .one
  rw [U256.toNat_one, one_pow, one_mul, U256.bitLength_eq_size,
    Nat.mod_eq_of_lt (Nat.lt_size_self _), ← U256.bitLength_eq_size, toNat_reduce] at he
  rw [← Nat.mod_eq_of_lt hlt]
  exact he.trans ((Nat.mod_modEq _ _).pow _)

lemma toNat_pow_lt (base exp : U256) : (m.pow base exp).toNat < m.value.toNat := by
  have h := m.two_pow_le
  rw [toNat_pow]
  exact Nat.mod_lt _ (by omega)

/-- The power with the exponent 0 is 1. -/
lemma pow_zero_eq_one (base : U256) : m.pow base .zero = .one := rfl

/-! ### Inverses -/

lemma invert_eq_error {a : U256} (h : a.toNat % m.value.toNat = 0) :
    m.invert a = .error (.invalidParameter "Modulus::invert" "zero has no inverse") := by
  have hz : (m.reduce a).isZero = true := by rwa [U256.isZero_iff, toNat_reduce]
  simp [invert, hz, bind, Except.bind, throw, throwThe, MonadExceptOf.throw]

/-- Fermat's theorem, read as a way to invert. -/
lemma pow_sub_two_eq_inv {q : ℕ} [Fact q.Prime] (hq : 2 < q) (x : ZMod q) :
    x ^ (q - 2) = x⁻¹ := by
  by_cases hx : x = 0
  · rw [hx, inv_zero, zero_pow (by omega)]
  · have e : q - 2 + 1 = q - 1 := by omega
    refine eq_inv_of_mul_eq_one_left ?_
    rw [← pow_succ, e]
    exact ZMod.pow_card_sub_one_eq_one hx

lemma toNat_invertExponent : (m.value.wrappingSub (.ofWord 2)).toNat = m.value.toNat - 2 := by
  have hm := m.two_pow_le
  have hm' := m.toNat_lt
  rw [U256.toNat_wrappingSub, U256.toNat_ofWord]
  change (2 ^ 256 + m.value.toNat - 2) % 2 ^ 256 = _
  omega

/-- **Inverting never fails** modulo a prime, except on the multiples of it. -/
theorem exists_invert_eq_ok (hp : m.value.toNat.Prime) {a : U256}
    (h : a.toNat % m.value.toNat ≠ 0) :
    ∃ v, m.invert a = .ok v ∧ v.toNat < m.value.toNat ∧
      (v.toNat : ZMod m.value.toNat) = (a.toNat : ZMod m.value.toNat)⁻¹ := by
  have : Fact m.value.toNat.Prime := ⟨hp⟩
  have hm := m.two_pow_le
  have hz : (m.reduce a).isZero = false := by rwa [U256.isZero_eq_false_iff, toNat_reduce]
  refine ⟨m.pow (m.reduce a) (m.value.wrappingSub (.ofWord 2)), ?_, ?_, ?_⟩
  · simp [invert, hz, pure, Except.pure]
  · exact m.toNat_pow_lt _ _
  · rw [toNat_pow, toNat_reduce, toNat_invertExponent, ZMod.natCast_mod, Nat.cast_pow,
      ZMod.natCast_mod]
    exact pow_sub_two_eq_inv (by omega) _

/-- The inverse makes the product one. -/
lemma exists_invert_modEq_one (hp : m.value.toNat.Prime) {a : U256}
    (ha : ¬a.toNat ≡ 0 [MOD m.value.toNat]) :
    ∃ b, m.invert a = .ok b ∧ 1 ≤ b.toNat ∧ b.toNat ≤ m.value.toNat - 1 ∧
      a.toNat * b.toNat ≡ 1 [MOD m.value.toNat] := by
  have : Fact m.value.toNat.Prime := ⟨hp⟩
  obtain ⟨b, hb, hlt, hinv⟩ := m.exists_invert_eq_ok hp (a := a) ha
  have ha0 : (a.toNat : ZMod m.value.toNat) ≠ 0 := by
    rwa [← Nat.cast_zero, ne_eq, ZMod.natCast_eq_natCast_iff]
  have hb0 : b.toNat ≠ 0 := by
    intro hb0
    rw [hb0, Nat.cast_zero] at hinv
    exact inv_ne_zero ha0 hinv.symm
  refine ⟨b, hb, Nat.one_le_iff_ne_zero.mpr hb0, Nat.le_pred_of_lt hlt, ?_⟩
  rw [← ZMod.natCast_eq_natCast_iff, Nat.cast_mul, Nat.cast_one, hinv]
  exact mul_inv_cancel₀ ha0

/-- What is asked of inverting: it refuses the multiples of the modulus and nothing else, and what
it gives for any other integer is the residue that makes the product one. -/
structure InvertsExactly : Prop where
  refuses : ∀ a : U256,
    m.invert a = .error (.invalidParameter "Modulus::invert" "zero has no inverse") ↔
      a.toNat ≡ 0 [MOD m.value.toNat]
  inverts : ∀ a : U256, ¬a.toNat ≡ 0 [MOD m.value.toNat] →
    ∃ b, m.invert a = .ok b ∧ 1 ≤ b.toNat ∧ b.toNat ≤ m.value.toNat - 1 ∧
      a.toNat * b.toNat ≡ 1 [MOD m.value.toNat]

/-- **Fermat's theorem inverts exactly** modulo every prime. -/
theorem invertsExactly_of_prime (hp : m.value.toNat.Prime) : m.InvertsExactly := by
  refine ⟨fun a => ⟨fun h => ?_, m.invert_eq_error⟩, fun a => m.exists_invert_modEq_one hp⟩
  by_contra ha
  obtain ⟨b, hb, -⟩ := m.exists_invert_modEq_one hp ha
  rw [hb] at h
  cases h

end Secp256k1.Modulus
