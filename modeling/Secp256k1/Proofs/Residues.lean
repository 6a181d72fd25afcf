import Secp256k1.Modulus
import Secp256k1.Proofs.Integers

/-!
Arithmetic modulo an integer of exactly 256 bits is arithmetic of residues.

The modulus lies between `2 ^ 255` and `2 ^ 256`, so one subtraction reduces any 256-bit
integer, and the sum of two residues, whether or not it carries out of 256 bits.
-/

namespace Secp256k1

namespace U256

lemma subBorrow_snd (a b : U256) : (subBorrow a b false).2 = decide (a.toNat < b.toNat) :=
  lt_eq_decide a b

lemma addCarry_snd (a b : U256) :
    (addCarry a b false).2 = decide (2 ^ 256 ≤ a.toNat + b.toNat) := by
  have h := toNat_addCarry a b false
  have hl := (addCarry a b false).1.toNat_lt_two_pow
  rw [size_eq] at h
  cases e : (addCarry a b false).2 <;> rw [e] at h <;> simp at h ⊢ <;> omega

end U256

namespace Modulus

/-! ### What a modulus is made of -/

section Making

variable {v : U256} {m : Modulus}

/-- The modulus of a value is the one that has the value. -/
lemma ofU256_eq_ok_iff : ofU256 v = .ok m ↔ m.value = v := by
  constructor
  · intro h
    unfold ofU256 at h
    split at h
    · exact congrArg value (Except.ok.inj h).symm
    · cases h
  · rintro rfl
    obtain ⟨value, complement, topBit, rfl⟩ := m
    exact dif_pos topBit

/-- A value is a modulus if its top bit is set. -/
lemma exists_ofU256_iff (v : U256) : (∃ m, ofU256 v = .ok m) ↔ 2 ^ 255 ≤ v.toNat := by
  have hv := v.toNat_lt_two_pow
  have hbit : v.bit 255 = true ↔ 2 ^ 255 ≤ v.toNat := by
    rw [U256.bit_eq_testBit, Nat.testBit_eq_decide_div_mod_eq, decide_eq_true_iff]
    omega
  rw [← hbit]
  constructor
  · rintro ⟨m, hm⟩
    rw [← ofU256_eq_ok_iff.mp hm]
    exact m.topBit
  · intro h
    exact ⟨⟨v, v.wrappingNeg, h, rfl⟩, ofU256_eq_ok_iff.mpr rfl⟩

end Making

variable (m : Modulus)

lemma two_pow_le : 2 ^ 255 ≤ m.value.toNat := by
  have h := m.topBit
  rw [U256.bit_eq_testBit] at h
  exact Nat.ge_two_pow_of_testBit h

lemma toNat_lt : m.value.toNat < 2 ^ 256 := m.value.toNat_lt_two_pow

lemma toNat_complement : m.complement.toNat = 2 ^ 256 - m.value.toNat := by
  have h := m.two_pow_le
  have h' := m.toNat_lt
  rw [m.complement_eq, U256.wrappingNeg, U256.toNat_wrappingSub, U256.toNat_zero]
  omega

/-- A number below twice the modulus is at most one subtraction away from its residue. -/
lemma mod_eq_ite {x n : ℕ} (h : x < 2 * n) : x % n = if x < n then x else x - n := by
  split
  · next hx => exact Nat.mod_eq_of_lt hx
  · next hx =>
    rw [Nat.mod_eq_sub_mod (not_lt.mp hx)]
    exact Nat.mod_eq_of_lt (by omega)

lemma contains_iff (a : U256) : m.contains a = true ↔ a.toNat < m.value.toNat :=
  U256.lt_iff a m.value

lemma toNat_reduce (a : U256) : (m.reduce a).toNat = a.toNat % m.value.toNat := by
  have h := m.two_pow_le
  have ha := a.toNat_lt_two_pow
  have hs := U256.toNat_wrappingSub a m.value
  have e : m.reduce a = if a.toNat < m.value.toNat then a else a.wrappingSub m.value := by
    simp only [reduce, U256.subBorrow_snd, decide_eq_true_eq]
    rfl
  rw [e, mod_eq_ite (by omega)]
  split <;> omega

lemma toNat_reduce_lt (a : U256) : (m.reduce a).toNat < m.value.toNat := by
  have h := m.two_pow_le
  rw [toNat_reduce]
  exact Nat.mod_lt _ (by omega)

variable {m} in
lemma toNat_add {a b : U256} (ha : a.toNat < m.value.toNat) (hb : b.toNat < m.value.toNat) :
    (m.add a b).toNat = (a.toNat + b.toNat) % m.value.toNat := by
  have h := m.two_pow_le
  have hm := m.toNat_lt
  have hs := U256.toNat_wrappingAdd a b
  have hd := U256.toNat_wrappingSub (a.wrappingAdd b) m.value
  have e : m.add a b = if 2 ^ 256 ≤ a.toNat + b.toNat ∨ ¬(a.wrappingAdd b).toNat < m.value.toNat
      then (a.wrappingAdd b).wrappingSub m.value else a.wrappingAdd b := by
    simp only [add, U256.subBorrow_snd, U256.addCarry_snd, Bool.or_eq_true, Bool.not_eq_true',
      decide_eq_true_eq, decide_eq_false_iff_not]
    rfl
  rw [e, mod_eq_ite (by omega)]
  split_ifs <;> omega

variable {m} in
lemma toNat_sub {a b : U256} (ha : a.toNat < m.value.toNat) (hb : b.toNat < m.value.toNat) :
    (m.sub a b).toNat = (m.value.toNat + a.toNat - b.toNat) % m.value.toNat := by
  have hm := m.toNat_lt
  have hd := U256.toNat_wrappingSub a b
  have hs := U256.toNat_wrappingAdd (a.wrappingSub b) m.value
  have e : m.sub a b = if a.toNat < b.toNat then (a.wrappingSub b).wrappingAdd m.value
      else a.wrappingSub b := by
    simp only [sub, U256.subBorrow_snd, decide_eq_true_eq]
    rfl
  rw [e, mod_eq_ite (by omega)]
  split_ifs <;> omega

variable {m} in
lemma toNat_neg {a : U256} (ha : a.toNat ≤ m.value.toNat) :
    (m.neg a).toNat = (m.value.toNat - a.toNat) % m.value.toNat := by
  have h := m.two_pow_le
  have hm := m.toNat_lt
  have hd := U256.toNat_wrappingSub m.value a
  have hz := U256.isZero_iff a
  rw [neg, mod_eq_ite (by omega)]
  split_ifs with h1 h2 h2
  · rw [hz] at h1
    omega
  · rw [U256.toNat_zero]
    omega
  · omega
  · rw [hz] at h1
    omega

end Modulus

end Secp256k1
