import Mathlib.Tactic.Linarith
import Secp256k1.Multiplication.SignedDigits
import Secp256k1.Proofs.Integers

/-!
The signed digits of a scalar stand for the scalar.

Taking an odd value's digit away may round the value up, but never beyond the next multiple of
`2 ^ (w + 1)`, so that one digit more than the value has bits is always enough. Only the odd
values next to `2 ^ 512` are rounded up to it, and in 512 bits that leaves nothing.
-/

namespace Secp256k1.SignedDigits

variable {w : ℕ} {v : U512}

/-- Zero, or an odd digit that the table of a window has an entry for. -/
def IsDigit (w : ℕ) (d : ℤ) : Prop := d = 0 ∨ d % 2 = 1 ∧ d.natAbs < 2 ^ w

lemma residue_eq (hw : w < 64) (v : U512) :
    residue w v = if v.toNat % 2 ^ (w + 1) < 2 ^ w then (v.toNat % 2 ^ (w + 1) : ℤ)
      else v.toNat % 2 ^ (w + 1) - 2 ^ (w + 1) := by
  have h := v.toNat_word_zero_mod (show w + 1 ≤ 64 from hw)
  unfold residue
  simp only [Nat.one_shiftLeft, h]
  push_cast
  rfl

lemma toNat_natAbs {d : ℤ} (hd : d.natAbs < 2 ^ 64) :
    d.natAbs.toUInt64.toNat = d.natAbs := by
  rw [Nat.toUInt64_eq, UInt64.toNat_ofNat']
  exact Nat.mod_eq_of_lt hd

lemma toNat_takeAway {d : ℤ} (hd : d.natAbs < 2 ^ 64) (h0 : d ≤ v.toNat)
    (h1 : v.toNat - d < 2 ^ 512) : ((takeAway v d).toNat : ℤ) = v.toNat - d := by
  have hv := v.toNat_lt_two_pow
  have ha := toNat_natAbs hd
  unfold takeAway
  split
  · rw [U512.toNat_wrappingSubWord, ha]
    omega
  · rw [U512.toNat_wrappingAddWord, ha]
    omega

/-- **The digit of an odd value** is odd, it belongs to the window, and taking it away leaves a
multiple of `2 ^ (w + 1)`. -/
lemma residue_spec (hw0 : 0 < w) (hw : w < 64) (hodd : v.toNat % 2 = 1) :
    residue w v % 2 = 1 ∧ (residue w v).natAbs < 2 ^ w ∧
      ∃ q : ℕ, (v.toNat : ℤ) - residue w v = 2 * 2 ^ w * q := by
  rw [residue_eq hw]
  obtain ⟨m, hm⟩ : ∃ m, m = 2 ^ w := ⟨_, rfl⟩
  have hmz : (2 ^ w : ℤ) = m := by exact_mod_cast hm.symm
  have hm2 : 2 ^ (w + 1) = 2 * m := by rw [hm, pow_succ']
  have hm2z : (2 ^ (w + 1) : ℤ) = 2 * m := by exact_mod_cast hm2
  have hme : m % 2 = 0 := by
    rw [hm, ← Nat.sub_add_cancel hw0, pow_succ]
    omega
  have hdm := Nat.div_add_mod v.toNat (2 * m)
  have hdmz : (2 * m * (v.toNat / (2 * m) : ℕ) + (v.toNat % (2 * m) : ℕ) : ℤ) = v.toNat := by
    exact_mod_cast hdm
  have hlt : v.toNat % (2 * m) < 2 * m := Nat.mod_lt _ (by have := Nat.two_pow_pos w; omega)
  have hr2 : v.toNat % (2 * m) % 2 = 1 := by rw [Nat.mod_mul_right_mod, hodd]
  have hrz : ((v.toNat : ℤ) % (2 * m)) = (v.toNat % (2 * m) : ℕ) := by push_cast; rfl
  rw [hm2, hm2z, ← hm, hmz, hrz]
  generalize v.toNat % (2 * m) = r at *
  split
  · refine ⟨by omega, by omega, v.toNat / (2 * m), ?_⟩
    linarith
  · refine ⟨by omega, by omega, v.toNat / (2 * m) + 1, ?_⟩
    push_cast
    linarith

/-- The digit of an odd value is not beyond the value. -/
lemma residue_le (hw0 : 0 < w) (hw : w < 64) (hodd : v.toNat % 2 = 1) :
    residue w v ≤ v.toNat := by
  obtain ⟨-, -, q, hq⟩ := residue_spec hw0 hw hodd
  have hpos : (0 : ℤ) ≤ 2 * 2 ^ w * q := by positivity
  omega

/-- The digit of an odd value leaves a value that is within the bound of the value. -/
lemma sub_residue_le {f : ℕ} (hw0 : 0 < w) (hw : w < 64) (hodd : v.toNat % 2 = 1)
    (hv : v.toNat ≤ 2 ^ f) : v.toNat - residue w v ≤ 2 ^ f := by
  obtain ⟨-, hd, q, hq⟩ := residue_spec hw0 hw hodd
  have hvz : (v.toNat : ℤ) ≤ 2 ^ f := by exact_mod_cast hv
  have hdz : -(2 ^ w : ℤ) < residue w v := by
    have h : ((residue w v).natAbs : ℤ) < 2 ^ w := by exact_mod_cast hd
    omega
  have hm : (0 : ℤ) < 2 * 2 ^ w := by positivity
  rw [hq]
  rcases Nat.lt_or_ge w f with hf | hf
  · -- the bound is a multiple of `2 ^ (w + 1)`, so that rounding up stays below it
    obtain ⟨k, rfl⟩ := Nat.exists_eq_add_of_lt hf
    have hpow : (2 ^ (w + k + 1) : ℤ) = 2 * 2 ^ w * 2 ^ k := by ring
    rw [hpow] at hvz ⊢
    refine mul_le_mul_of_nonneg_left (Int.lt_add_one_iff.mp ?_) hm.le
    refine lt_of_mul_lt_mul_left ?_ hm.le
    linarith
  · -- the value is below `2 ^ w`, and is its own digit
    have hfm : (2 ^ f : ℤ) ≤ 2 ^ w := pow_le_pow_right₀ one_le_two hf
    have hq0 : (q : ℤ) < 1 := by
      refine lt_of_mul_lt_mul_left ?_ hm.le
      linarith
    obtain rfl : q = 0 := by omega
    rw [Nat.cast_zero, mul_zero]
    positivity

lemma toInt_toInt16 {d : ℤ} (hw : w ≤ 15) (hd : d.natAbs < 2 ^ w) : d.toInt16.toInt = d := by
  have h15 : 2 ^ w ≤ 2 ^ 15 := Nat.pow_le_pow_right two_pos hw
  exact Int16.toInt_ofInt_of_le (by omega) (by omega)

/-! ### The top of the width -/

/-- The odd integers next to `2 ^ 512`. Taking their digit away rounds them up to it, and in 512
bits that is 0. -/
def Wraps (w a : ℕ) : Prop := a % 2 = 1 ∧ 2 ^ 512 ≤ a + 2 ^ w

lemma not_wraps_of_lt {a : ℕ} (hw : w ≤ 15) (ha : a < 2 ^ 511) : ¬Wraps w a := by
  rintro ⟨-, h⟩
  have hm : 2 ^ w ≤ 2 ^ 15 := Nat.pow_le_pow_right two_pos hw
  omega

/-- What remains of an odd value reaches `2 ^ 512` for the values next to it only. -/
lemma sub_residue_eq_iff (hw0 : 0 < w) (hw : w < 64) (hodd : v.toNat % 2 = 1) :
    (v.toNat : ℤ) - residue w v = 2 ^ 512 ↔ Wraps w v.toNat := by
  obtain ⟨-, hd, q, hq⟩ := residue_spec hw0 hw hodd
  have hv := v.toNat_lt_two_pow
  constructor
  · intro h
    exact ⟨hodd, by omega⟩
  · rintro ⟨-, h⟩
    have hm : (0 : ℤ) < 2 * 2 ^ w := by positivity
    have hdz : ((residue w v).natAbs : ℤ) < 2 ^ w := by exact_mod_cast hd
    have hhz : (2 ^ 512 : ℤ) ≤ v.toNat + 2 ^ w := by exact_mod_cast h
    have hpow : (2 ^ 512 : ℤ) = 2 * 2 ^ w * 2 ^ (511 - w) := by
      rw [← pow_succ', ← pow_add]
      congr 1
      omega
    -- both are multiples of `2 ^ (w + 1)`, and less than that apart
    have hle : (q : ℤ) < 2 ^ (511 - w) + 1 := by
      refine lt_of_mul_lt_mul_left ?_ hm.le
      rw [mul_add, ← hpow, ← hq]
      omega
    have hge : (2 ^ (511 - w) : ℤ) < q + 1 := by
      refine lt_of_mul_lt_mul_left ?_ hm.le
      rw [mul_add, ← hpow, ← hq]
      omega
    rw [hq, hpow, le_antisymm (Int.lt_add_one_iff.mp hle) (Int.lt_add_one_iff.mp hge)]

lemma toNat_takeAway_of_wrap {d : ℤ} (hd : d.natAbs < 2 ^ 64) (h : v.toNat - d = 2 ^ 512) :
    (takeAway v d).toNat = 0 := by
  have hv := v.toNat_lt_two_pow
  have ha := toNat_natAbs hd
  have hsum : v.toNat + d.natAbs = 2 ^ 512 := by omega
  unfold takeAway
  rw [if_neg (by omega), U512.toNat_wrappingAddWord, ha, hsum]
  exact Nat.mod_self _

/-- Half of a value is not next to `2 ^ 512`. -/
lemma not_wraps_shiftRight1 (hw : w ≤ 15) (v : U512) : ¬Wraps w v.shiftRight1.toNat := by
  have hv := v.toNat_lt_two_pow
  apply not_wraps_of_lt hw
  rw [U512.toNat_shiftRight1]
  omega

/-! ### One digit -/

section Odd

variable (hw0 : 0 < w) (hw : w ≤ 15) (hodd : v.toNat % 2 = 1)
include hw0 hw hodd

lemma natAbs_residue_lt : (residue w v).natAbs < 2 ^ 64 := by
  obtain ⟨-, hd, -⟩ := residue_spec hw0 (by omega) hodd
  exact hd.trans_le (Nat.pow_le_pow_right two_pos (by omega))

/-- Twice what is left of an odd value is the value less its digit. -/
lemma two_mul_rest (h : ¬Wraps w v.toNat) :
    2 * ((takeAway v (residue w v)).shiftRight1.toNat : ℤ) = v.toNat - residue w v := by
  obtain ⟨-, -, q, hq⟩ := residue_spec hw0 (by omega) hodd
  have hle := sub_residue_le (f := 512) hw0 (by omega) hodd v.toNat_lt_two_pow.le
  have hlt := lt_of_le_of_ne hle ((sub_residue_eq_iff hw0 (by omega) hodd).not.mpr h)
  have ht := toNat_takeAway (natAbs_residue_lt hw0 hw hodd) (residue_le hw0 (by omega) hodd) hlt
  have hs := (takeAway v (residue w v)).toNat_shiftRight1
  rw [mul_assoc] at hq
  generalize (2 ^ w * q : ℤ) = r at hq
  omega

/-- Nothing is left of a value next to `2 ^ 512`. -/
lemma rest_of_wraps (h : Wraps w v.toNat) :
    (takeAway v (residue w v)).shiftRight1.toNat = 0 := by
  have ht := toNat_takeAway_of_wrap (natAbs_residue_lt hw0 hw hodd)
    ((sub_residue_eq_iff hw0 (by omega) hodd).mpr h)
  rw [U512.toNat_shiftRight1, ht]

/-- What is left of an odd value has the next `w` digits 0. -/
lemma two_pow_dvd_rest : 2 ^ w ∣ (takeAway v (residue w v)).shiftRight1.toNat := by
  by_cases h : Wraps w v.toNat
  · rw [rest_of_wraps hw0 hw hodd h]
    exact dvd_zero _
  · obtain ⟨-, -, q, hq⟩ := residue_spec hw0 (by omega) hodd
    have hr := two_mul_rest hw0 hw hodd h
    refine ⟨q, ?_⟩
    zify
    linarith

/-- A digit may round the value up, but what is left has a bit less than the value. -/
lemma two_mul_rest_le {f : ℕ} (hv : v.toNat ≤ 2 ^ f) :
    2 * (takeAway v (residue w v)).shiftRight1.toNat ≤ 2 ^ f := by
  by_cases h : Wraps w v.toNat
  · rw [rest_of_wraps hw0 hw hodd h]
    exact Nat.zero_le _
  · have hr := two_mul_rest hw0 hw hodd h
    have hf := sub_residue_le hw0 (by omega) hodd hv
    zify
    rwa [hr]

end Odd

/-! ### All digits -/

/-- `Recoding w v ds` says that the recoding of `v` comes to an end by itself, after the digits
`ds`, and that none of them loses anything in 16 bits. -/
inductive Recoding (w : ℕ) : U512 → List Int16 → Prop
  | done {v : U512} (h : v.isZero = true) : Recoding w v []
  | even {v : U512} {ds : List Int16} (h0 : v.isZero = false) (h : v.isOdd = false)
      (rest : Recoding w v.shiftRight1 ds) : Recoding w v (0 :: ds)
  | odd {v : U512} {d : Int16} {ds : List Int16} (h0 : v.isZero = false) (h : v.isOdd = true)
      (hd : d.toInt = residue w v) (rest : Recoding w (takeAway v (residue w v)).shiftRight1 ds) :
      Recoding w v (d :: ds)

/-- **The recoding comes to an end** within one digit more than the value has bits. The induction
is on the digits there is room for: each step takes a bit off the bound of the value. -/
theorem recoding_recode (hw0 : 0 < w) (hw : w ≤ 15) {fuel : ℕ} (hv : 2 * v.toNat ≤ 2 ^ fuel) :
    Recoding w v (recode w fuel v) := by
  induction fuel generalizing v with
  | zero => exact .done ((U512.isZero_iff v).mpr (by omega))
  | succ fuel ih =>
    rw [pow_succ'] at hv
    rw [recode]
    split
    case isTrue h0 => exact .done h0
    case isFalse h0 =>
    split
    case isTrue ho =>
      have hodd := (U512.isOdd_iff v).mp ho
      obtain ⟨-, hd, -⟩ := residue_spec hw0 (by omega) hodd
      have hle := two_mul_rest_le (f := fuel) hw0 hw hodd (by omega)
      exact .odd (Bool.eq_false_iff.mpr h0) ho (toInt_toInt16 hw hd) (ih hle)
    case isFalse ho =>
      have hs := v.toNat_shiftRight1
      exact .even (Bool.eq_false_iff.mpr h0) (Bool.eq_false_iff.mpr ho) (ih (by omega))

/-- Digits of the window that stand for an integer. -/
structure Encodes (w : ℕ) (ds : List Int16) (a : ℤ) : Prop where
  value_eq : value ds = a
  isDigit : ∀ d ∈ ds, IsDigit w d.toInt

namespace Recoding

variable {ds : List Int16}

lemma eq_nil (h : Recoding w v ds) (h0 : v.toNat = 0) : ds = [] := by
  have hz := (U512.isZero_iff v).mpr h0
  cases h with
  | done => rfl
  | even h => exact absurd (hz.symm.trans h) (by simp)
  | odd h => exact absurd (hz.symm.trans h) (by simp)

lemma isDigit (hw0 : 0 < w) (hw : w ≤ 15) (h : Recoding w v ds) :
    ∀ d ∈ ds, IsDigit w d.toInt := by
  induction h with
  | done => simp
  | even _ _ _ ih => exact List.forall_mem_cons.mpr ⟨.inl rfl, ih⟩
  | odd _ ho hd _ ih =>
    obtain ⟨hodd, hlt, -⟩ := residue_spec hw0 (by omega) ((U512.isOdd_iff _).mp ho)
    exact List.forall_mem_cons.mpr ⟨.inr (hd ▸ ⟨hodd, hlt⟩), ih⟩

lemma value_eq (hw0 : 0 < w) (hw : w ≤ 15) (h : Recoding w v ds) (hv : ¬Wraps w v.toNat) :
    value ds = v.toNat := by
  induction h with
  | done h => rw [(U512.isZero_iff _).mp h, value, Nat.cast_zero]
  | @even v ds _ ho _ ih =>
    have heven : ¬v.toNat % 2 = 1 := by rw [← U512.isOdd_iff, ho]; exact Bool.false_ne_true
    have hs := v.toNat_shiftRight1
    rw [value, ih (not_wraps_shiftRight1 hw v), show (0 : Int16).toInt = 0 from rfl]
    omega
  | @odd v d ds _ ho hd _ ih =>
    have hr := two_mul_rest hw0 hw ((U512.isOdd_iff v).mp ho) hv
    rw [value, ih (not_wraps_shiftRight1 hw _), hd, hr]
    omega

/-- **The digits of a value stand for the value**, unless it is next to `2 ^ 512`. -/
theorem encodes (hw0 : 0 < w) (hw : w ≤ 15) (h : Recoding w v ds) (hv : ¬Wraps w v.toNat) :
    Encodes w ds v.toNat := ⟨h.value_eq hw0 hw hv, h.isDigit hw0 hw⟩

/-- **The digits of a value next to `2 ^ 512`** stand for what the value is short of it. -/
theorem encodes_of_wraps (hw0 : 0 < w) (hw : w ≤ 15) (h : Recoding w v ds)
    (hv : Wraps w v.toNat) : Encodes w ds (v.toNat - 2 ^ 512) := by
  refine ⟨?_, h.isDigit hw0 hw⟩
  have hodd := hv.1
  cases h with
  | done h =>
    rw [(U512.isZero_iff v).mp h] at hodd
    cases hodd
  | even _ h =>
    rw [(U512.isOdd_iff v).mpr hodd] at h
    cases h
  | odd _ _ hd rest =>
    have hrest := (sub_residue_eq_iff hw0 (by omega) hodd).mpr hv
    rw [rest.eq_nil (rest_of_wraps hw0 hw hodd hv), value, value, hd]
    omega

end Recoding

end Secp256k1.SignedDigits
