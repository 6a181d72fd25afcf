import Secp256k1.Proofs.Field

/-!
Square roots modulo the field prime.

The prime is 3 modulo 4, so one power of a square is its root: raising to the exponent undoes
squaring among the squares. What is no square is told apart by squaring the power again.
-/

namespace Secp256k1.FieldElement

variable {a r : FieldElement}

/-- A quarter of the prime and one. -/
def sqrtExponent : U256 := (fieldModulus.value.wrappingAdd .one).shiftRight1.shiftRight1

lemma four_mul_sqrtExponent : 4 * sqrtExponent.toNat = fieldPrime + 1 := by
  rw [sqrtExponent, toNat_sqrtExponent]
  decide

lemma sqrt?_eq_some_iff_pow : a.sqrt? = some r ↔ r = a.pow sqrtExponent ∧ r.square = a := by
  have h : a.sqrt? =
      if (a.pow sqrtExponent).square = a then some (a.pow sqrtExponent) else none := by
    unfold sqrt? sqrtExponent
    rfl
  rw [h, Option.ite_none_right_eq_some, Option.some.injEq]
  constructor
  · rintro ⟨h, rfl⟩
    exact ⟨rfl, h⟩
  · rintro ⟨rfl, h⟩
    exact ⟨h, rfl⟩

lemma toNat_square (a : FieldElement) : a.square.value.toNat = a.value.toNat ^ 2 % fieldPrime := by
  have h : a.square.value = fieldModulus.mul a.value a.value := by
    rw [square, Modulus.square]
  rw [h, Modulus.toNat_mul, toNat_fieldModulus, sq]

lemma pow_square (a : FieldElement) (e : U256) : a.square.pow e = (a.pow e).square := by
  rw [← toZMod_inj (isCanonical_pow _ _) (isCanonical_square _)]
  simp only [toZMod_pow, toZMod_square]
  rw [pow_right_comm]

/-- On squares the exponent undoes squaring. -/
lemma pow_sqrtExponent_square_square (a : FieldElement) :
    a.square.square.pow sqrtExponent = a.square := by
  rw [← toZMod_inj (isCanonical_pow _ _) (isCanonical_square _)]
  simp only [toZMod_pow, toZMod_square]
  calc ((a.toZMod ^ 2) ^ 2) ^ sqrtExponent.toNat = a.toZMod ^ (4 * sqrtExponent.toNat) := by ring
    _ = a.toZMod ^ (fieldPrime + 1) := by rw [four_mul_sqrtExponent]
    _ = a.toZMod ^ 2 := by rw [pow_succ, ZMod.pow_card, sq]

lemma exists_sqrt?_iff (a : FieldElement) :
    (∃ r, a.sqrt? = some r) ↔ ∃ b : FieldElement, b.square = a := by
  simp only [sqrt?_eq_some_iff_pow]
  constructor
  · rintro ⟨r, -, hr⟩
    exact ⟨r, hr⟩
  · rintro ⟨b, rfl⟩
    exact ⟨_, rfl, by rw [← pow_square, pow_sqrtExponent_square_square]⟩

/-- Of the two roots of a square, the one that is found is a square itself. -/
lemma sqrt?_eq_some_iff :
    a.sqrt? = some r ↔ r.square = a ∧ ∃ b : FieldElement, b.square = r := by
  rw [sqrt?_eq_some_iff_pow]
  constructor
  · rintro ⟨hr, rfl⟩
    refine ⟨rfl, r.pow sqrtExponent, ?_⟩
    rw [← pow_square, ← hr]
  · rintro ⟨rfl, b, rfl⟩
    exact ⟨(pow_sqrtExponent_square_square b).symm, rfl⟩

/-- An element is a square if its number is the residue of a square number. -/
lemma exists_square_iff (a : FieldElement) :
    (∃ b : FieldElement, b.square = a) ↔ ∃ n : ℕ, n ^ 2 % fieldPrime = a.value.toNat := by
  constructor
  · rintro ⟨b, rfl⟩
    exact ⟨b.value.toNat, (toNat_square b).symm⟩
  · rintro ⟨n, hn⟩
    obtain ⟨ha, hz⟩ := spec_of_toNat (a := a) (n := n ^ 2) (by rw [toNat_fieldModulus, hn])
    have hsq : IsSquare a.toZMod := ⟨n, by rw [hz, Nat.cast_pow, sq]⟩
    rw [← exists_sqrt?_iff, ← Option.ne_none_iff_exists']
    exact fun h => (sqrt?_eq_none_iff ha).mp h hsq

/-- **Square roots are found exactly for squares.** What is found is a root below the prime, and
of the two roots it is the one that is a square itself. Nothing is found exactly if no number has
a square with the residue. The exponent is a quarter of the prime and one, which is below
`2 ^ 256` and a multiple of four. -/
theorem squareRoots_exact (a : FieldElement) :
    (∀ r, a.sqrt? = some r → r.value.toNat < fieldPrime ∧ r.square = a ∧
      r.value.toNat ^ 2 % fieldPrime = a.value.toNat) ∧
    ((∃ r, a.sqrt? = some r) ↔ ∃ b : FieldElement, b.square = a) ∧
    (a.sqrt? = none ↔ ∀ n : ℕ, n ^ 2 % fieldPrime ≠ a.value.toNat) ∧
    (∀ r, a.sqrt? = some r ↔ r.square = a ∧ ∃ b : FieldElement, b.square = r) ∧
    (∀ r, a.sqrt? = some r → r = a.pow sqrtExponent) ∧
    (fieldModulus.value.overflowingAdd .one).2 = false ∧
    4 * sqrtExponent.toNat = fieldPrime + 1 := by
  refine ⟨?_, exists_sqrt?_iff a, ?_, fun r => sqrt?_eq_some_iff, ?_, ?_, four_mul_sqrtExponent⟩
  · intro r h
    obtain ⟨hr, rfl⟩ := sqrt?_eq_some_iff_pow.mp h
    refine ⟨(isCanonical_iff r).mp ?_, rfl, (toNat_square r).symm⟩
    rw [hr]
    exact isCanonical_pow _ _
  · rw [← not_iff_not, ← ne_eq, Option.ne_none_iff_exists', exists_sqrt?_iff, exists_square_iff]
    push Not
    rfl
  · exact fun r h => (sqrt?_eq_some_iff_pow.mp h).1
  · decide

end Secp256k1.FieldElement
