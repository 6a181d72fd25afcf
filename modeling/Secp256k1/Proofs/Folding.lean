import Secp256k1.Proofs.Residues

/-!
Reduction by folding, as the loop that it is.

The loop folds for as long as the high half is not zero, whatever number of folds that takes. It
does end: the complement is `2 ^ 255` at most, so that a fold halves the high half, up to
rounding. No fold leaves 512 bits on the way, and what is left at the end is one subtraction away
from the residue.
-/

namespace Secp256k1.Modulus

variable (m : Modulus)

/-! ### One fold -/

/-- One fold never leaves 512 bits. -/
lemma fold_lt (w : U512) : m.complement.toNat * w.hi.toNat + w.lo.toNat < 2 ^ 512 := by
  have hc := m.toNat_complement
  have h := m.two_pow_le
  have hl := w.lo.toNat_lt_two_pow
  have hp : m.complement.toNat * w.hi.toNat ≤ 2 ^ 255 * (2 ^ 256 - 1) :=
    Nat.mul_le_mul (by omega) (Nat.le_pred_of_lt w.hi.toNat_lt_two_pow)
  omega

lemma toNat_fold (w : U512) :
    (m.fold w).toNat = m.complement.toNat * w.hi.toNat + w.lo.toNat := by
  rw [fold, U512.toNat_wrappingAdd, U512.toNat_mulWide, U512.toNat_ofU256]
  exact Nat.mod_eq_of_lt (m.fold_lt w)

lemma toNat_fold_mod (w : U512) : (m.fold w).toNat % m.value.toNat = w.toNat % m.value.toNat := by
  have hc := m.toNat_complement
  have hm := m.toNat_lt
  have e : w.toNat = m.value.toNat * w.hi.toNat + (m.fold w).toNat := by
    rw [U512.toNat_eq_halves, toNat_fold, ← Nat.add_assoc, ← Nat.add_mul, hc]
    congr 2
    omega
  rw [e, Nat.mul_add_mod]

lemma hi_fold_le (w : U512) : (m.fold w).hi.toNat ≤ (w.hi.toNat + 1) / 2 := by
  have hc := m.toNat_complement
  have h := m.two_pow_le
  have hl := w.lo.toNat_lt_two_pow
  have e := m.toNat_fold w
  have hp : m.complement.toNat * w.hi.toNat ≤ 2 ^ 255 * w.hi.toNat :=
    Nat.mul_le_mul_right _ (by omega)
  rw [U512.toNat_eq_halves] at e
  omega

/-- A high half of one is gone after two folds: what the first one leaves above `2 ^ 256` is
less than the complement. -/
lemma hi_fold_fold {w : U512} (hw : w.hi.toNat ≤ 1) (h1 : (m.fold w).hi.toNat ≠ 0) :
    (m.fold (m.fold w)).hi.toNat = 0 := by
  have hc := m.toNat_complement
  have h := m.two_pow_le
  have hl := w.lo.toNat_lt_two_pow
  have e := m.toNat_fold w
  have e' := m.toNat_fold (m.fold w)
  have hh := m.hi_fold_le w
  have hw1 : w.hi.toNat = 1 := by omega
  have hf1 : (m.fold w).hi.toNat = 1 := by omega
  rw [U512.toNat_eq_halves] at e e'
  rw [hw1] at e
  rw [hf1] at e e'
  omega

/-! ### The loop -/

/-- The loop makes so many folds of an integer and ends with another one. A fold whose sum has no
room in 512 bits is not made. -/
inductive Folds (m : Modulus) : ℕ → U512 → U512 → Prop
  | done {w : U512} (h : w.hi.isZero = true) : Folds m 0 w w
  | fold {n : ℕ} {w last : U512} (h : w.hi.isZero = false)
      (room : m.complement.toNat * w.hi.toNat + w.lo.toNat < 2 ^ 512)
      (rest : Folds m n (m.fold w) last) : Folds m (n + 1) w last

namespace Folds

variable {m : Modulus} {n : ℕ} {w last : U512}

lemma of_hi_eq_zero (h : w.hi.toNat = 0) : m.Folds 0 w w := .done ((U256.isZero_iff _).mpr h)

lemma of_hi_ne_zero (h : w.hi.toNat ≠ 0) (rest : m.Folds n (m.fold w) last) :
    m.Folds (n + 1) w last :=
  .fold ((U256.isZero_eq_false_iff _).mpr h) (m.fold_lt w) rest

lemma hi_eq_zero (h : m.Folds n w last) : last.hi.toNat = 0 := by
  induction h with
  | done h => exact (U256.isZero_iff _).mp h
  | fold _ _ _ ih => exact ih

/-- What the loop keeps. -/
lemma mod_eq (h : m.Folds n w last) : last.toNat % m.value.toNat = w.toNat % m.value.toNat := by
  induction h with
  | done => rfl
  | fold _ _ _ ih => exact ih.trans (m.toNat_fold_mod _)

/-- One subtraction is enough at the end. -/
lemma toNat_reduce_lo (h : m.Folds n w last) :
    (m.reduce last.lo).toNat = w.toNat % m.value.toNat := by
  have hlast := last.toNat_eq_halves
  rw [h.hi_eq_zero, Nat.mul_zero, Nat.zero_add] at hlast
  rw [toNat_reduce, ← hlast]
  exact h.mod_eq

/-- Fuel for as many folds, or for more, does not change where the loop ends. -/
lemma foldAll_eq (h : m.Folds n w last) {fuel : ℕ} (hn : n ≤ fuel) : m.foldAll fuel w = last := by
  induction h generalizing fuel with
  | done h => cases fuel <;> simp [foldAll, h]
  | fold h _ _ ih =>
    obtain ⟨fuel, rfl⟩ := Nat.exists_eq_succ_of_ne_zero (Nat.ne_zero_of_lt hn)
    rw [foldAll, h]
    exact ih (Nat.le_of_succ_le_succ hn)

end Folds

/-- A high half of at most `2 ^ k` takes `k` folds to fall to one, and two more to vanish. -/
lemma exists_folds_of_hi_le (k : ℕ) {w : U512} (hw : w.hi.toNat ≤ 2 ^ k) :
    ∃ n ≤ k + 2, ∃ last, m.Folds n w last := by
  induction k generalizing w with
  | zero =>
    by_cases h0 : w.hi.toNat = 0
    · exact ⟨0, by omega, w, .of_hi_eq_zero h0⟩
    by_cases h1 : (m.fold w).hi.toNat = 0
    · exact ⟨1, by omega, _, .of_hi_ne_zero h0 (.of_hi_eq_zero h1)⟩
    · have h2 := m.hi_fold_fold (by simpa using hw) h1
      exact ⟨2, le_rfl, _, .of_hi_ne_zero h0 (.of_hi_ne_zero h1 (.of_hi_eq_zero h2))⟩
  | succ k ih =>
    by_cases h0 : w.hi.toNat = 0
    · exact ⟨0, by omega, w, .of_hi_eq_zero h0⟩
    · have hfold := m.hi_fold_le w
      rw [pow_succ] at hw
      obtain ⟨n, hn, last, h⟩ := ih (w := m.fold w) (by omega)
      exact ⟨n + 1, by omega, last, .of_hi_ne_zero h0 h⟩

/-- **The loop ends**, and the residue is read off where it ends. -/
theorem exists_folds (w : U512) :
    ∃ n ≤ 258, ∃ last, m.Folds n w last ∧ m.reduceWide w = m.reduce last.lo := by
  obtain ⟨n, hn, last, h⟩ := m.exists_folds_of_hi_le 256 w.hi.toNat_lt_two_pow.le
  exact ⟨n, hn, last, h, by rw [reduceWide, h.foldAll_eq hn]⟩

/-- No fewer folds would do: the greatest complement takes off one bit a time. -/
lemma Folds.lt_of_two_pow_le {m : Modulus} (hc : m.complement.toNat = 2 ^ 255) {n k : ℕ}
    {w last : U512} (h : m.Folds n w last) (hk : 2 ^ k ≤ w.hi.toNat) : k < n := by
  induction h generalizing k with
  | done h =>
    rw [(U256.isZero_iff _).mp h] at hk
    exact absurd hk (Nat.two_pow_pos k).not_ge
  | @fold _ w _ _ _ _ ih =>
    cases k with
    | zero => exact Nat.succ_pos _
    | succ k =>
      have hfold := m.toNat_fold w
      have hlo := (m.fold w).lo.toNat_lt_two_pow
      rw [hc, U512.toNat_eq_halves] at hfold
      rw [pow_succ] at hk
      exact Nat.succ_lt_succ (ih (by omega))

/-! ### Residues of 512 bits, and of products -/

theorem toNat_reduceWide (w : U512) : (m.reduceWide w).toNat = w.toNat % m.value.toNat := by
  obtain ⟨n, -, last, h, hresult⟩ := m.exists_folds w
  rw [hresult, h.toNat_reduce_lo]

@[simp] theorem toNat_mul (a b : U256) : (m.mul a b).toNat = a.toNat * b.toNat % m.value.toNat := by
  rw [mul, toNat_reduceWide, U512.toNat_mulWide]

lemma toNat_mul_lt (a b : U256) : (m.mul a b).toNat < m.value.toNat := by
  have h := m.two_pow_le
  rw [toNat_mul]
  exact Nat.mod_lt _ (by omega)

/-- **Folding reduces modulo every integer of exactly 256 bits**, prime or not. The loop ends on
every integer of 512 bits without having left them, with the residue; so that products are
residues of products, whether the factors are residues or not. -/
theorem folding_ends_exact (v : U256) :
    ((∃ m, ofU256 v = .ok m) ↔ 2 ^ 255 ≤ v.toNat) ∧
      ∀ m, ofU256 v = .ok m → m.complement.toNat = 2 ^ 256 - v.toNat ∧
        (∀ w : U512, ∃ n ≤ 258, ∃ last, m.Folds n w last ∧ m.reduceWide w = m.reduce last.lo ∧
          (m.reduceWide w).toNat = w.toNat % v.toNat ∧ (m.reduceWide w).toNat < v.toNat) ∧
        ∀ a b : U256, (m.mul a b).toNat = a.toNat * b.toNat % v.toNat := by
  refine ⟨exists_ofU256_iff v, ?_⟩
  intro m hm
  obtain rfl := ofU256_eq_ok_iff.mp hm
  refine ⟨m.toNat_complement, ?_, m.toNat_mul⟩
  intro w
  obtain ⟨n, hn, last, hfolds, hresult⟩ := m.exists_folds w
  refine ⟨n, hn, last, hfolds, hresult, m.toNat_reduceWide w, ?_⟩
  rw [hresult]
  exact m.toNat_reduce_lt last.lo

/-- The greatest complement and the greatest integer. -/
theorem folding_ends_longest :
    let v : U256 := ⟨0, 0, 0, 0x8000000000000000⟩
    let w : U512 := ⟨U256.zero.wrappingSub .one, U256.zero.wrappingSub .one⟩
    ∃ m, ofU256 v = .ok m ∧ m.complement.toNat = 2 ^ 255 ∧
      ∃ n last, m.Folds n w last ∧ 256 ≤ n ∧ (m.reduceWide w).toNat = 2 ^ 255 - 1 := by
  intro v w
  have hv : v.toNat = 2 ^ 255 := by decide
  have hw : w.toNat % 2 ^ 255 = 2 ^ 255 - 1 := by decide
  have hhi : 2 ^ 255 ≤ w.hi.toNat := by decide
  obtain ⟨haccepted, hmodulus⟩ := folding_ends_exact v
  obtain ⟨m, hm⟩ := haccepted.mpr hv.ge
  obtain ⟨hcomplement, hreduce, -⟩ := hmodulus m hm
  obtain ⟨n, -, last, hfolds, -, hresult, -⟩ := hreduce w
  rw [hv] at hcomplement hresult
  exact ⟨m, hm, hcomplement, n, last, hfolds, hfolds.lt_of_two_pow_le hcomplement hhi,
    hresult.trans hw⟩

end Secp256k1.Modulus
