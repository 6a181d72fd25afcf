import Mathlib.Data.Nat.Size
import Mathlib.Tactic.Linarith
import Mathlib.Tactic.Ring
import Secp256k1.U512

/-!
What the word-level routines compute, in terms of the integers the words stand for.

Each operation on 256 or 512 bits gets one equation about `toNat`. Sums and differences are
exact modulo the width, halving is a division, and the bits are the binary digits; nothing
later looks at single words again.
-/

namespace Secp256k1

namespace Word

lemma bit_eq_testBit (a : UInt64) {i : ℕ} (hi : i < 64) : bit a i = a.toNat.testBit i := by
  have hs : i.toUInt64.toNat % 64 = i := by
    simp only [Nat.toUInt64_eq, UInt64.toNat_ofNat']
    omega
  have h : (a >>> i.toUInt64 &&& 1).toNat = a.toNat / 2 ^ i % 2 := by
    rw [UInt64.toNat_and, UInt64.toNat_shiftRight, hs, Nat.shiftRight_eq_div_pow]
    exact Nat.and_one_is_mod _
  rw [bit, Nat.testBit_eq_decide_div_mod_eq, ← h, Bool.eq_iff_iff, beq_iff_eq, decide_eq_true_iff,
    ← UInt64.toNat_inj]
  rfl

lemma bitLength_eq_size (a : UInt64) : bitLength a = a.toNat.size := by
  rw [bitLength]
  split
  · next h => rw [beq_iff_eq] at h; subst h; rfl
  · next h =>
    have h0 : a.toNat ≠ 0 := fun h1 => h (by rw [beq_iff_eq, ← UInt64.toNat_inj]; exact h1)
    have hl : a.log2.toNat = a.toNat.log2 := rfl
    rw [hl]
    refine le_antisymm ?_ ?_
    · exact Nat.lt_size.mpr (Nat.log2_self_le h0)
    · exact Nat.size_le.mpr Nat.lt_log2_self

/-- A word shifted down by one, with the lowest bit of the word above it shifted in. -/
lemma toNat_shiftIn (a b : UInt64) :
    ((a >>> 1) ||| (b <<< 63)).toNat = a.toNat / 2 + 2 ^ 63 * (b.toNat % 2) := by
  have ha := a.toNat_lt
  have hb : (b <<< 63).toNat = 2 ^ 63 * (b.toNat % 2) := by
    rw [UInt64.toNat_shiftLeft, Nat.shiftLeft_eq]
    simp only [UInt64.toNat_ofNat, Nat.reducePow, Nat.reduceMod]
    omega
  have hs : (a >>> 1).toNat = a.toNat / 2 := by
    rw [UInt64.toNat_shiftRight, Nat.shiftRight_eq_div_pow]
    simp
  rw [UInt64.toNat_or, hb, hs, Nat.or_comm, ← Nat.two_pow_add_eq_or_of_lt (by omega), Nat.add_comm]

lemma toNat_byte (a : UInt64) {i : ℕ} (hi : i < 8) :
    (byte a i).toNat = a.toNat / 256 ^ i % 256 := by
  have hs : (8 * i).toUInt64.toNat % 64 = 8 * i := by
    simp only [Nat.toUInt64_eq, UInt64.toNat_ofNat']
    omega
  rw [byte, UInt64.toNat_toUInt8, UInt64.toNat_shiftRight, hs, Nat.shiftRight_eq_div_pow, pow_mul]
  norm_num

end Word

namespace U256

lemma size_eq : size = 2 ^ 256 := by norm_num [size, UInt64.size]

lemma toNat_lt_two_pow (a : U256) : a.toNat < 2 ^ 256 := size_eq ▸ a.toNat_lt

@[simp] lemma toNat_zero : zero.toNat = 0 := rfl

@[simp] lemma toNat_one : one.toNat = 1 := rfl

@[simp] lemma toNat_ofWord (w : UInt64) : (ofWord w).toNat = w.toNat := by
  simp [toNat, ofWord]

lemma isZero_iff (a : U256) : a.isZero = true ↔ a.toNat = 0 := by
  simp only [isZero, Bool.and_eq_true, beq_iff_eq, toNat, ← UInt64.toNat_inj, UInt64.size,
    UInt64.toNat_zero]
  omega

lemma isZero_eq_false_iff (a : U256) : a.isZero = false ↔ a.toNat ≠ 0 := by
  rw [← Bool.not_eq_true, isZero_iff]

lemma isOdd_iff (a : U256) : a.isOdd = true ↔ a.toNat % 2 = 1 := by
  have h : (a.w0 &&& 1).toNat = a.w0.toNat % 2 := Nat.and_one_is_mod _
  rw [isOdd, beq_iff_eq, ← UInt64.toNat_inj, h, UInt64.toNat_one]
  simp only [toNat, UInt64.size]
  omega

/-! ### Sums, differences and order -/

lemma toNat_wrappingAdd (a b : U256) : (a.wrappingAdd b).toNat = (a.toNat + b.toNat) % 2 ^ 256 := by
  have h := toNat_addCarry a b false
  have hl := (addCarry a b false).1.toNat_lt
  rw [← size_eq, wrappingAdd, ← Nat.mod_eq_of_lt hl, ← Nat.add_mul_mod_self_left, h]
  rfl

lemma toNat_wrappingSub (a b : U256) :
    (a.wrappingSub b).toNat = (2 ^ 256 + a.toNat - b.toNat) % 2 ^ 256 := by
  have h := toNat_subBorrow a b false
  have hl := (subBorrow a b false).1.toNat_lt
  have ha := a.toNat_lt
  have hb := b.toNat_lt
  have hc := (subBorrow a b false).2.toNat_le
  rw [← size_eq, wrappingSub]
  rcases Nat.le_one_iff_eq_zero_or_eq_one.mp hc with h0 | h0 <;> rw [h0] at h
  · have e : size + a.toNat - b.toNat = (subBorrow a b false).1.toNat + size := by
      simp only [Bool.toNat_false] at h
      omega
    rw [e, Nat.add_mod_right, Nat.mod_eq_of_lt hl]
  · have e : size + a.toNat - b.toNat = (subBorrow a b false).1.toNat := by
      simp only [Bool.toNat_false] at h
      omega
    rw [e, Nat.mod_eq_of_lt hl]

lemma lt_iff (a b : U256) : a.lt b = true ↔ a.toNat < b.toNat := by
  rw [lt_eq_decide, decide_eq_true_iff]

lemma le_iff (a b : U256) : a.le b = true ↔ a.toNat ≤ b.toNat := by
  rw [le, lt_eq_decide, Bool.not_eq_true', decide_eq_false_iff_not, not_lt]

/-! ### Bits -/

/-- The words as digits in the base `2 ^ 64`. -/
lemma toNat_eq_digits (a : U256) : a.toNat =
    2 ^ 64 * (2 ^ 64 * (2 ^ 64 * a.w3.toNat + a.w2.toNat) + a.w1.toNat) + a.w0.toNat := by
  simp only [toNat, UInt64.size]
  omega

lemma toNat_word (a : U256) {i : ℕ} (hi : i < 4) :
    (a.word i).toNat = a.toNat / (2 ^ 64) ^ i % 2 ^ 64 := by
  have h0 := a.w0.toNat_lt
  have h1 := a.w1.toNat_lt
  have h2 := a.w2.toNat_lt
  have h3 := a.w3.toNat_lt
  rw [toNat_eq_digits]
  match i, hi with
  | 0, _ => simp only [word]; omega
  | 1, _ => simp only [word]; omega
  | 2, _ => simp only [word]; omega
  | 3, _ => simp only [word]; omega

lemma bit_eq_testBit (a : U256) (i : ℕ) : a.bit i = a.toNat.testBit i := by
  rw [bit, width]
  by_cases hi : i < 256
  · have hw : i / 64 < 4 := by omega
    have hb : i % 64 < 64 := Nat.mod_lt _ (by norm_num)
    have e : i = 64 * (i / 64) + i % 64 := (Nat.div_add_mod i 64).symm
    rw [decide_eq_true hi, Bool.true_and, Word.bit_eq_testBit _ hb, toNat_word a hw, ← pow_mul,
      Nat.testBit_mod_two_pow, decide_eq_true hb, Bool.true_and, Nat.testBit_div_two_pow,
      Nat.add_comm, ← e]
  · have h : a.toNat < 2 ^ i :=
      a.toNat_lt_two_pow.trans_le (Nat.pow_le_pow_right (by norm_num) (by omega))
    rw [decide_eq_false hi, Bool.false_and, Nat.testBit_lt_two_pow h]

/-- The length of a number, given the length of its part from bit `k` on. -/
lemma size_add_two_pow_mul {k x y : ℕ} (hx : x < 2 ^ k) (hy : y ≠ 0) :
    (2 ^ k * y + x).size = k + y.size := by
  refine le_antisymm ?_ ?_
  · rw [Nat.size_le, pow_add]
    have h := Nat.lt_size_self y
    nlinarith [Nat.two_pow_pos k]
  · have h := Nat.size_pos.mpr (Nat.pos_of_ne_zero hy)
    obtain ⟨s, hs⟩ : ∃ s, y.size = s + 1 := ⟨y.size - 1, by omega⟩
    have h2 : 2 ^ s ≤ y := Nat.lt_size.mp (by omega)
    rw [hs, ← Nat.add_assoc, Nat.succ_le_iff, Nat.lt_size, pow_add]
    exact (Nat.mul_le_mul_left _ h2).trans (Nat.le_add_right _ _)

lemma bitLength_eq_size (a : U256) : a.bitLength = a.toNat.size := by
  have h0 := a.w0.toNat_lt
  have h1 := a.w1.toNat_lt
  have h2 := a.w2.toNat_lt
  have ne {w : UInt64} (h : (w != 0) = true) : w.toNat ≠ 0 := by
    rw [bne_iff_ne, ne_eq, ← UInt64.toNat_inj] at h
    exact h
  have eq {w : UInt64} (h : ¬(w != 0) = true) : w.toNat = 0 := by
    rw [bne_iff_ne, ne_eq, not_not] at h
    rw [h]
    rfl
  simp only [bitLength, Word.bitLength_eq_size]
  split_ifs with h3' h2' h1'
  · have h : a.w0.toNat + 2 ^ 64 * (a.w1.toNat + 2 ^ 64 * a.w2.toNat) < 2 ^ 192 := by omega
    rw [← size_add_two_pow_mul h (ne h3'), toNat_eq_digits]
    congr 1
    omega
  · have h : a.w0.toNat + 2 ^ 64 * a.w1.toNat < 2 ^ 128 := by omega
    rw [← size_add_two_pow_mul h (ne h2'), toNat_eq_digits, eq h3']
    congr 1
    omega
  · rw [← size_add_two_pow_mul h0 (ne h1'), toNat_eq_digits, eq h3', eq h2']
    simp
  · rw [toNat_eq_digits, eq h3', eq h2', eq h1']
    simp

lemma toNat_shiftRight1 (a : U256) : a.shiftRight1.toNat = a.toNat / 2 := by
  have h3 : (a.w3 >>> 1).toNat = a.w3.toNat / 2 := by
    rw [UInt64.toNat_shiftRight, Nat.shiftRight_eq_div_pow]
    simp
  rw [toNat_eq_digits, toNat_eq_digits]
  simp only [shiftRight1, Word.toNat_shiftIn, h3]
  omega

end U256

namespace U512

@[simp] lemma toNat_zero : zero.toNat = 0 := rfl

@[simp] lemma toNat_ofU256 (a : U256) : (ofU256 a).toNat = a.toNat := by
  simp [toNat, ofU256]

lemma toNat_eq_halves (a : U512) : a.toNat = 2 ^ 256 * a.hi.toNat + a.lo.toNat := by
  rw [toNat, U256.size_eq, Nat.add_comm]

lemma toNat_lt_two_pow (a : U512) : a.toNat < 2 ^ 512 := by
  have hl := a.lo.toNat_lt_two_pow
  have hh := a.hi.toNat_lt_two_pow
  rw [toNat_eq_halves]
  omega

lemma isZero_iff (a : U512) : a.isZero = true ↔ a.toNat = 0 := by
  rw [isZero, Bool.and_eq_true, U256.isZero_iff, U256.isZero_iff, toNat_eq_halves]
  omega

lemma isOdd_iff (a : U512) : a.isOdd = true ↔ a.toNat % 2 = 1 := by
  rw [isOdd, U256.isOdd_iff, toNat_eq_halves]
  omega

lemma toNat_wrappingAdd (a b : U512) :
    (a.wrappingAdd b).toNat = (a.toNat + b.toNat) % 2 ^ 512 := by
  have hl := U256.toNat_addCarry a.lo b.lo false
  have hh := U256.toNat_addCarry a.hi b.hi (U256.addCarry a.lo b.lo false).2
  have bl := (U256.addCarry a.lo b.lo false).1.toNat_lt_two_pow
  have bh := (U256.addCarry a.hi b.hi (U256.addCarry a.lo b.lo false).2).1.toNat_lt_two_pow
  simp only [toNat_eq_halves, wrappingAdd, U256.size_eq, Bool.toNat_false] at *
  omega

lemma toNat_wrappingAddWord (a : U512) (w : UInt64) :
    (a.wrappingAddWord w).toNat = (a.toNat + w.toNat) % 2 ^ 512 := by
  rw [wrappingAddWord, toNat_wrappingAdd, toNat_ofU256, U256.toNat_ofWord]

lemma toNat_wrappingSubWord (a : U512) (w : UInt64) :
    (a.wrappingSubWord w).toNat = (2 ^ 512 + a.toNat - w.toNat) % 2 ^ 512 := by
  have hl := U256.toNat_subBorrow a.lo (.ofWord w) false
  have hh := U256.toNat_subBorrow a.hi .zero (U256.subBorrow a.lo (.ofWord w) false).2
  have bl := (U256.subBorrow a.lo (.ofWord w) false).1.toNat_lt_two_pow
  have bh := (U256.subBorrow a.hi .zero
    (U256.subBorrow a.lo (.ofWord w) false).2).1.toNat_lt_two_pow
  have ah := a.hi.toNat_lt_two_pow
  have hw := w.toNat_lt
  have hc := (U256.subBorrow a.lo (.ofWord w) false).2.toNat_le
  have hd := (U256.subBorrow a.hi .zero (U256.subBorrow a.lo (.ofWord w) false).2).2.toNat_le
  simp only [toNat_eq_halves, wrappingSubWord, U256.size_eq, Bool.toNat_false, U256.toNat_ofWord,
    U256.toNat_zero] at *
  omega

lemma bit_eq_testBit (a : U512) (i : ℕ) : a.bit i = a.toNat.testBit i := by
  rw [bit, toNat_eq_halves, Nat.testBit_two_pow_mul_add _ a.lo.toNat_lt_two_pow,
    U256.bit_eq_testBit, U256.bit_eq_testBit]

lemma bitLength_eq_size (a : U512) : a.bitLength = a.toNat.size := by
  rw [bitLength, toNat_eq_halves]
  split
  · next h => rw [U256.bitLength_eq_size, (U256.isZero_iff _).mp h, Nat.mul_zero, Nat.zero_add]
  · next h =>
    rw [U256.bitLength_eq_size, U256.size_add_two_pow_mul a.lo.toNat_lt_two_pow]
    rwa [U256.isZero_iff] at h

lemma toNat_shiftRight1 (a : U512) : a.shiftRight1.toNat = a.toNat / 2 := by
  have h3 : (a.lo.w3 >>> 1).toNat = a.lo.w3.toNat / 2 := by
    rw [UInt64.toNat_shiftRight, Nat.shiftRight_eq_div_pow]
    simp
  have hw : a.hi.w0.toNat % 2 = a.hi.toNat % 2 := by
    rw [U256.toNat_eq_digits a.hi]
    omega
  have hl : a.shiftRight1.lo.toNat = a.lo.toNat / 2 + 2 ^ 255 * (a.hi.toNat % 2) := by
    have h := U256.toNat_shiftRight1 a.lo
    rw [U256.toNat_eq_digits] at h ⊢
    simp only [shiftRight1, U256.shiftRight1, Word.toNat_shiftIn, h3, hw] at h ⊢
    omega
  have hh : a.shiftRight1.hi.toNat = a.hi.toNat / 2 := U256.toNat_shiftRight1 a.hi
  rw [toNat_eq_halves, toNat_eq_halves, hl, hh]
  omega

/-- The lowest word holds the residue modulo every power of two up to its width. -/
lemma toNat_word_zero_mod (a : U512) {k : ℕ} (hk : k ≤ 64) :
    (a.word 0).toNat % 2 ^ k = a.toNat % 2 ^ k := by
  have hw : (a.word 0).toNat = a.toNat % 2 ^ 64 := by
    have h := U256.toNat_word a.lo (i := 0) (by norm_num)
    rw [pow_zero, Nat.div_one] at h
    change (a.lo.word 0).toNat = _
    rw [h, toNat_eq_halves]
    omega
  rw [hw, Nat.mod_mod_of_dvd _ (pow_dvd_pow 2 hk)]

end U512

end Secp256k1
