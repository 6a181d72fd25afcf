import Secp256k1.Proofs.Field
import Secp256k1.Proofs.Scalars

/-!
Powers and inverses modulo the two primes of the curve.

Powers are right modulo every integer of exactly 256 bits. Inverses are powers, and right because
the field prime and the group order are primes, as they are written.
-/

namespace Secp256k1

/-- The field prime, as it is written. -/
lemma ofHex_fieldModulus :
    Modulus.ofHex "FFFFFFFFFFFFFFFFFFFFFFFFFFFFFFFFFFFFFFFFFFFFFFFFFFFFFFFEFFFFFC2F" =
      .ok fieldModulus := by
  decide +kernel

/-- The group order, as it is written. -/
lemma ofHex_orderModulus :
    Modulus.ofHex "FFFFFFFFFFFFFFFFFFFFFFFFFFFFFFFEBAAEDCE6AF48A03BBFD25E8CD0364141" =
      .ok orderModulus := by
  decide +kernel

lemma invertsExactly_fieldModulus : fieldModulus.InvertsExactly :=
  fieldModulus.invertsExactly_of_prime (toNat_fieldModulus ▸ prime_fieldPrime)

lemma invertsExactly_orderModulus : orderModulus.InvertsExactly :=
  orderModulus.invertsExactly_of_prime (toNat_orderModulus ▸ prime_groupOrder)

/-- **Powers are exact modulo everything, and inverses modulo the primes of the curve.** A power
is the residue of the power, with one for the exponent 0. What is inverted modulo either prime is
refused if it is a multiple of the prime, and otherwise gives the residue that it is inverse to.
The inverse in the field that maps zero to zero is that inverse for everything else. -/
theorem powers_and_inverses_exact :
    (∀ (v : U256) (m : Modulus), Modulus.ofU256 v = .ok m → ∀ base exp : U256,
      (m.pow base exp).toNat = base.toNat ^ exp.toNat % v.toNat ∧
        (m.pow base exp).toNat < v.toNat ∧ m.pow base .zero = .one) ∧
    (Modulus.ofHex "FFFFFFFFFFFFFFFFFFFFFFFFFFFFFFFFFFFFFFFFFFFFFFFFFFFFFFFEFFFFFC2F" =
      .ok fieldModulus ∧ fieldModulus.InvertsExactly) ∧
    (Modulus.ofHex "FFFFFFFFFFFFFFFFFFFFFFFFFFFFFFFEBAAEDCE6AF48A03BBFD25E8CD0364141" =
      .ok orderModulus ∧ orderModulus.InvertsExactly) ∧
    ∀ a : FieldElement, a.IsCanonical →
      (a.isZero = false → a.invert = .ok a.invertOrZero) ∧
        (a.isZero = true → a.invertOrZero = .zero) := by
  refine ⟨?_, ⟨ofHex_fieldModulus, invertsExactly_fieldModulus⟩,
    ⟨ofHex_orderModulus, invertsExactly_orderModulus⟩, ?_⟩
  · intro v m hm base exp
    obtain rfl := Modulus.ofU256_eq_ok_iff.mp hm
    exact ⟨m.toNat_pow base exp, m.toNat_pow_lt base exp, m.pow_zero_eq_one base⟩
  · intro a ha
    constructor
    · intro h0
      apply FieldElement.invert_eq_ok_invertOrZero
      rwa [← Bool.not_eq_true, FieldElement.isZero_iff ha] at h0
    · intro h0
      apply FieldElement.invertOrZero_eq_zero
      rwa [FieldElement.isZero_iff ha] at h0

/-- Powers modulo a number that is not prime, and the inverse of the greatest field element. -/
theorem powers_and_inverses_exact_composite :
    let v : U256 := U256.zero.wrappingSub .one
    let a : FieldElement := -.one
    3 ∣ v.toNat ∧ a.IsCanonical ∧ a.isZero = false ∧ a.invert = .ok a.invertOrZero ∧
      ∃ m, Modulus.ofU256 v = .ok m ∧ (m.pow (.ofWord 2) (.ofWord 256)).toNat = 1 ∧
        m.pow v .zero = .one := by
  intro v a
  have hv : v.toNat = 2 ^ 256 - 1 := by decide
  have ha : a.IsCanonical := FieldElement.isCanonical_neg FieldElement.isCanonical_one
  have ha0 : a.isZero = false := by decide
  obtain ⟨m, hm⟩ := (Modulus.exists_ofU256_iff v).mpr (by omega)
  obtain ⟨hpow, -, -, hinverse⟩ := powers_and_inverses_exact
  obtain ⟨htwo, -, -⟩ := hpow v m hm (.ofWord 2) (.ofWord 256)
  obtain ⟨-, -, hzero⟩ := hpow v m hm v .zero
  refine ⟨by omega, ha, ha0, (hinverse a ha).1 ha0, m, hm, ?_, hzero⟩
  rw [htwo, hv, U256.toNat_ofWord, U256.toNat_ofWord]
  decide

end Secp256k1
