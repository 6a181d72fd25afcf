import Secp256k1.FieldElement
import Secp256k1.Proofs.Powers
import Secp256k1.Proofs.Primality

/-!
Field elements as residues modulo the field prime.

The reading `toZMod` is one to one on canonical elements, and takes every operation to the
operation of the field. Products are canonical whatever their factors are; sums and
differences are canonical, and right, on canonical operands.
-/

namespace Secp256k1

/-- The field of the coordinates. -/
abbrev Fp : Type := ZMod fieldPrime

lemma natCast_ne_zero {k : ℕ} (h0 : 0 < k) (hk : k < fieldPrime) : (k : Fp) ≠ 0 := by
  rw [ne_eq, ZMod.natCast_eq_zero_iff]
  exact Nat.not_dvd_of_pos_of_lt h0 hk

lemma two_ne_zero_Fp : (2 : Fp) ≠ 0 := by
  exact_mod_cast natCast_ne_zero (k := 2) (by decide) (by decide)

lemma three_ne_zero_Fp : (3 : Fp) ≠ 0 := by
  exact_mod_cast natCast_ne_zero (k := 3) (by decide) (by decide)

lemma seven_ne_zero_Fp : (7 : Fp) ≠ 0 := by
  exact_mod_cast natCast_ne_zero (k := 7) (by decide) (by decide)

@[simp] lemma toNat_fieldModulus : fieldModulus.value.toNat = fieldPrime := toNat_prime

namespace FieldElement

/-- The residue class of an element. -/
def toZMod (a : FieldElement) : Fp := (a.value.toNat : Fp)

lemma isCanonical_iff (a : FieldElement) : a.IsCanonical ↔ a.value.toNat < fieldPrime := by
  rw [IsCanonical, toNat_prime]

lemma IsCanonical.lt {a : FieldElement} (h : a.IsCanonical) :
    a.value.toNat < fieldModulus.value.toNat := h

lemma val_toZMod {a : FieldElement} (ha : a.IsCanonical) : a.toZMod.val = a.value.toNat :=
  ZMod.val_cast_of_lt ((isCanonical_iff a).mp ha)

lemma value_inj {a b : FieldElement} : a.value = b.value ↔ a = b := by
  cases a
  cases b
  rw [mk.injEq]

lemma toZMod_inj {a b : FieldElement} (ha : a.IsCanonical) (hb : b.IsCanonical) :
    a.toZMod = b.toZMod ↔ a = b := by
  refine ⟨fun h => value_inj.mp (U256.toNat_inj ?_), fun h => h ▸ rfl⟩
  rw [← val_toZMod ha, ← val_toZMod hb, h]

/-! ### Constants -/

@[simp] lemma isCanonical_zero : zero.IsCanonical := by
  rw [isCanonical_iff]
  decide

@[simp] lemma isCanonical_one : one.IsCanonical := by
  rw [isCanonical_iff]
  decide

@[simp] lemma isCanonical_ofWord (w : UInt64) : (ofWord w).IsCanonical := by
  have h := w.toNat_lt
  rw [isCanonical_iff, ofWord, U256.toNat_ofWord, fieldPrime]
  omega

@[simp] lemma toZMod_zero : zero.toZMod = 0 := by simp [toZMod, zero]

@[simp] lemma toZMod_one : one.toZMod = 1 := by simp [toZMod, one]

@[simp] lemma toZMod_ofWord (w : UInt64) : (ofWord w).toZMod = (w.toNat : Fp) := by
  simp [toZMod, ofWord]

lemma isZero_iff {a : FieldElement} (ha : a.IsCanonical) : a.isZero = true ↔ a.toZMod = 0 := by
  rw [isZero, U256.isZero_iff, ← val_toZMod ha, ZMod.val_eq_zero]

lemma isOdd_iff {a : FieldElement} (ha : a.IsCanonical) :
    a.isOdd = true ↔ a.toZMod.val % 2 = 1 := by
  rw [isOdd, U256.isOdd_iff, val_toZMod ha]

/-! ### Operations -/

@[simp] lemma isCanonical_reduce (a : U256) : (reduce a).IsCanonical :=
  fieldModulus.toNat_reduce_lt a

section Operations

variable {a b : FieldElement}

/-- What is computed modulo the prime is canonical, and has the residue class of the result. -/
lemma spec_of_toNat {n : ℕ} (h : a.value.toNat = n % fieldModulus.value.toNat) :
    a.IsCanonical ∧ a.toZMod = (n : Fp) := by
  rw [toNat_fieldModulus] at h
  refine ⟨(isCanonical_iff a).mpr ?_, ?_⟩
  · rw [h]
    exact Nat.mod_lt _ prime_fieldPrime.pos
  · rw [toZMod, h, ZMod.natCast_mod]

lemma spec_add (ha : a.IsCanonical) (hb : b.IsCanonical) :
    (a + b).IsCanonical ∧ (a + b).toZMod = ((a.value.toNat + b.value.toNat : ℕ) : Fp) :=
  spec_of_toNat (Modulus.toNat_add ha.lt hb.lt)

lemma spec_sub (ha : a.IsCanonical) (hb : b.IsCanonical) : (a - b).IsCanonical ∧
    (a - b).toZMod = ((fieldModulus.value.toNat + a.value.toNat - b.value.toNat : ℕ) : Fp) :=
  spec_of_toNat (Modulus.toNat_sub ha.lt hb.lt)

lemma spec_neg (ha : a.IsCanonical) : (-a).IsCanonical ∧
    (-a).toZMod = ((fieldModulus.value.toNat - a.value.toNat : ℕ) : Fp) :=
  spec_of_toNat (Modulus.toNat_neg ha.lt.le)

lemma spec_mul (a b : FieldElement) :
    (a * b).IsCanonical ∧ (a * b).toZMod = ((a.value.toNat * b.value.toNat : ℕ) : Fp) := by
  have h : (a * b).value = fieldModulus.mul a.value b.value := by
    rw [show a * b = mul a b from rfl, mul]
  refine spec_of_toNat ?_
  rw [h]
  exact fieldModulus.toNat_mul a.value b.value

lemma spec_pow (a : FieldElement) (e : U256) :
    (a.pow e).IsCanonical ∧ (a.pow e).toZMod = ((a.value.toNat ^ e.toNat : ℕ) : Fp) :=
  spec_of_toNat (fieldModulus.toNat_pow a.value e)

@[simp] lemma isCanonical_add (ha : a.IsCanonical) (hb : b.IsCanonical) : (a + b).IsCanonical :=
  (spec_add ha hb).1

@[simp] lemma toZMod_add (ha : a.IsCanonical) (hb : b.IsCanonical) :
    (a + b).toZMod = a.toZMod + b.toZMod := by
  rw [(spec_add ha hb).2, Nat.cast_add, toZMod, toZMod]

@[simp] lemma isCanonical_sub (ha : a.IsCanonical) (hb : b.IsCanonical) : (a - b).IsCanonical :=
  (spec_sub ha hb).1

@[simp] lemma toZMod_sub (ha : a.IsCanonical) (hb : b.IsCanonical) :
    (a - b).toZMod = a.toZMod - b.toZMod := by
  have h : b.value.toNat ≤ fieldModulus.value.toNat + a.value.toNat :=
    hb.lt.le.trans (Nat.le_add_right _ _)
  rw [(spec_sub ha hb).2, Nat.cast_sub h, Nat.cast_add, toNat_fieldModulus, ZMod.natCast_self,
    zero_add, toZMod, toZMod]

@[simp] lemma isCanonical_neg (ha : a.IsCanonical) : (-a).IsCanonical := (spec_neg ha).1

@[simp] lemma toZMod_neg (ha : a.IsCanonical) : (-a).toZMod = -a.toZMod := by
  rw [(spec_neg ha).2, Nat.cast_sub ha.lt.le, toNat_fieldModulus, ZMod.natCast_self, zero_sub,
    toZMod]

@[simp] lemma isCanonical_mul (a b : FieldElement) : (a * b).IsCanonical := (spec_mul a b).1

@[simp] lemma toZMod_mul (a b : FieldElement) : (a * b).toZMod = a.toZMod * b.toZMod := by
  rw [(spec_mul a b).2, Nat.cast_mul, toZMod, toZMod]

@[simp] lemma isCanonical_square (a : FieldElement) : a.square.IsCanonical :=
  isCanonical_mul a a

@[simp] lemma toZMod_square (a : FieldElement) : a.square.toZMod = a.toZMod ^ 2 := by
  rw [sq]
  exact toZMod_mul a a

@[simp] lemma isCanonical_double (ha : a.IsCanonical) : a.double.IsCanonical :=
  isCanonical_add ha ha

@[simp] lemma toZMod_double (ha : a.IsCanonical) : a.double.toZMod = 2 * a.toZMod := by
  rw [two_mul]
  exact toZMod_add ha ha

@[simp] lemma isCanonical_pow (a : FieldElement) (e : U256) : (a.pow e).IsCanonical :=
  (spec_pow a e).1

@[simp] lemma toZMod_pow (a : FieldElement) (e : U256) :
    (a.pow e).toZMod = a.toZMod ^ e.toNat := by
  rw [(spec_pow a e).2, Nat.cast_pow, toZMod]

end Operations

/-! ### Inverses -/

@[simp] lemma isCanonical_invertOrZero (a : FieldElement) : a.invertOrZero.IsCanonical :=
  isCanonical_pow a _

@[simp] lemma toZMod_invertOrZero (a : FieldElement) : a.invertOrZero.toZMod = a.toZMod⁻¹ := by
  rw [invertOrZero, toZMod_pow, Modulus.toNat_invertExponent, toNat_fieldModulus]
  exact Modulus.pow_sub_two_eq_inv (by decide) _

lemma exists_invert_eq_ok {a : FieldElement} (h : a.toZMod ≠ 0) :
    ∃ b : FieldElement, a.invert = .ok b ∧ b.IsCanonical ∧ b.toZMod = a.toZMod⁻¹ := by
  have h0 : a.value.toNat % fieldModulus.value.toNat ≠ 0 := by
    rw [toNat_fieldModulus]
    rwa [ne_eq, ← Nat.dvd_iff_mod_eq_zero, ← ZMod.natCast_eq_zero_iff]
  obtain ⟨v, hv, hlt, hinv⟩ :=
    fieldModulus.exists_invert_eq_ok (toNat_fieldModulus ▸ prime_fieldPrime) h0
  exact ⟨⟨v⟩, by rw [invert, hv]; rfl, hlt, hinv⟩

/-- Where both ways to invert give something they give the same. -/
lemma invert_eq_ok_invertOrZero {a : FieldElement} (h : a.toZMod ≠ 0) :
    a.invert = .ok a.invertOrZero := by
  obtain ⟨b, hb, hc, hinv⟩ := exists_invert_eq_ok h
  rw [hb, (toZMod_inj hc (isCanonical_invertOrZero a)).mp]
  rw [hinv, toZMod_invertOrZero]

lemma invertOrZero_eq_zero {a : FieldElement} (h : a.toZMod = 0) : a.invertOrZero = .zero := by
  rw [← toZMod_inj (isCanonical_invertOrZero a) isCanonical_zero, toZMod_invertOrZero, h, inv_zero,
    toZMod_zero]

/-! ### Square roots -/

/-- The exponent that takes square roots. -/
lemma toNat_sqrtExponent :
    (fieldModulus.value.wrappingAdd .one).shiftRight1.shiftRight1.toNat = (fieldPrime + 1) / 4 := by
  rw [U256.toNat_shiftRight1, U256.toNat_shiftRight1, U256.toNat_wrappingAdd, toNat_fieldModulus]
  decide

/-- The prime is 3 modulo 4, so a square is the square of its power by `(p + 1) / 4`. -/
lemma sq_pow_sqrtExponent {x : Fp} (h : IsSquare x) : (x ^ ((fieldPrime + 1) / 4)) ^ 2 = x := by
  obtain ⟨y, rfl⟩ := h
  by_cases h0 : y = 0
  · rw [h0, mul_zero, zero_pow (by decide), zero_pow two_ne_zero]
  · have e : (fieldPrime + 1) / 4 * 2 * 2 = fieldPrime - 1 + 2 := by decide
    rw [← pow_mul, ← sq, ← pow_mul, mul_comm 2, e, pow_add, ZMod.pow_card_sub_one_eq_one h0,
      one_mul]

lemma sqrt?_eq_some {a r : FieldElement} (h : a.sqrt? = some r) :
    r.IsCanonical ∧ r.toZMod ^ 2 = a.toZMod := by
  rw [sqrt?] at h
  split at h
  · next hr =>
    obtain rfl := Option.some.inj h
    refine ⟨isCanonical_pow a _, ?_⟩
    conv_rhs => rw [← hr, toZMod_square]
  · exact absurd h (by simp)

/-- **Square roots are found exactly for squares.** -/
theorem sqrt?_eq_none_iff {a : FieldElement} (ha : a.IsCanonical) :
    a.sqrt? = none ↔ ¬IsSquare a.toZMod := by
  constructor
  · intro h hsq
    rw [sqrt?, if_pos] at h
    · exact absurd h (by simp)
    · rw [← toZMod_inj (isCanonical_square _) ha, toZMod_square, toZMod_pow, toNat_sqrtExponent]
      exact sq_pow_sqrtExponent hsq
  · intro h
    rcases hs : a.sqrt? with _ | r
    · rfl
    · exact absurd ⟨r.toZMod, by rw [← sq, (sqrt?_eq_some hs).2]⟩ h

end FieldElement

end Secp256k1
