import Mathlib.Algebra.BigOperators.Fin
import Secp256k1.Proofs.Multiples

/-!
The shape of the signed digits.

The recoding of a scalar stands for the scalar, and its digits lie far apart: what is left of an
odd value is a multiple of `2 ^ w`, and the next `w` digits are zeros before another odd value
comes up. The last odd value is its own digit, so that the top digit is positive.
-/

namespace Secp256k1.SignedDigits

open LawfulBitString

variable {w : ℕ} {v : U512} {ds : List Int16}

/-- The digits one by one, each with its weight. -/
lemma value_eq_sum (ds : List Int16) :
    value ds = ∑ i : Fin ds.length, ds[i].toInt * 2 ^ (i : ℕ) := by
  induction ds with
  | nil => rfl
  | cons d ds ih =>
    rw [value, ih, Finset.mul_sum]
    simp [Fin.sum_univ_succ, pow_succ', mul_left_comm]

namespace Recoding

lemma ne_nil (h : Recoding w v ds) (h0 : v.toNat ≠ 0) : ds ≠ [] := by
  rintro rfl
  cases h with
  | done h => exact h0 ((U512.isZero_iff v).mp h)

/-- The digits of a multiple of `2 ^ j` begin with `j` zeros. -/
lemma replicate_prefix (h : Recoding w v ds) (h0 : v.toNat ≠ 0) {j : ℕ} (hj : 2 ^ j ∣ v.toNat) :
    List.replicate j 0 <+: ds := by
  induction j generalizing v ds with
  | zero => exact List.nil_prefix
  | succ j ih =>
    rw [pow_succ'] at hj
    have heven : 2 ∣ v.toNat := (dvd_mul_right 2 _).trans hj
    cases h with
    | done h => exact absurd ((U512.isZero_iff v).mp h) h0
    | odd _ ho =>
      rw [U512.isOdd_iff] at ho
      omega
    | even _ _ rest =>
      have hs := v.toNat_shiftRight1
      rw [List.replicate_succ, List.prefix_cons_inj]
      apply ih rest
      · omega
      · rw [hs]
        exact Nat.dvd_div_of_mul_dvd hj

/-- **Digits lie far apart.** A digit that is not 0 is the last one, or zeros follow it. -/
theorem spaced (hw0 : 0 < w) (hw : w ≤ 15) (h : Recoding w v ds) {d : Int16} {rest : List Int16}
    (hds : d :: rest <:+ ds) (hd : d ≠ 0) : rest = [] ∨ List.replicate w 0 <+: rest := by
  induction h with
  | done => cases List.suffix_nil.mp hds
  | even _ _ _ ih =>
    rcases List.suffix_cons_iff.mp hds with e | hds
    · exact absurd (List.cons.inj e).1 hd
    · exact ih hds
  | @odd v _ _ _ ho _ below ih =>
    rcases List.suffix_cons_iff.mp hds with e | hds
    · obtain ⟨-, rfl⟩ := List.cons.inj e
      have hdvd := two_pow_dvd_rest hw0 hw ((U512.isOdd_iff v).mp ho)
      by_cases h0 : (takeAway v (residue w v)).shiftRight1.toNat = 0
      · exact .inl (below.eq_nil h0)
      · exact .inr (below.replicate_prefix h0 hdvd)
    · exact ih hds

/-- **The top digit is positive**: nothing is left after it, and it is the whole value. -/
theorem getLast?_pos (hw0 : 0 < w) (hw : w ≤ 15) (h : Recoding w v ds) (hv : ¬Wraps w v.toNat) :
    ∀ d ∈ ds.getLast?, 0 < d.toInt := by
  induction h with
  | done => simp
  | @even v ds h0 ho rest ih =>
    rw [← Bool.not_eq_true, U512.isZero_iff] at h0
    rw [← Bool.not_eq_true, U512.isOdd_iff] at ho
    have hs := v.toNat_shiftRight1
    obtain ⟨e, es, rfl⟩ := List.exists_cons_of_ne_nil (rest.ne_nil (by omega))
    rw [List.getLast?_cons_cons]
    exact ih (not_wraps_shiftRight1 hw v)
  | @odd v d ds h0 ho hd rest ih =>
    rw [← Bool.not_eq_true, U512.isZero_iff] at h0
    rw [U512.isOdd_iff] at ho
    have hr := two_mul_rest hw0 hw ho hv
    cases ds with
    | nil =>
      have hvalue := rest.value_eq hw0 hw (not_wraps_shiftRight1 hw _)
      rw [value] at hvalue
      simp only [List.getLast?_singleton, Option.mem_some_iff, forall_eq']
      omega
    | cons e es =>
      rw [List.getLast?_cons_cons]
      exact ih (not_wraps_shiftRight1 hw _)

/-- A value has one digit more than bits at most, although taking a digit away may add to it. -/
theorem length_le (hw0 : 0 < w) (hw : w ≤ 15) (h : Recoding w v ds) {n : ℕ}
    (hv : 2 * v.toNat ≤ 2 ^ n) : ds.length ≤ n := by
  induction h generalizing n with
  | done => exact Nat.zero_le n
  | @even v ds h0 ho _ ih =>
    rw [← Bool.not_eq_true, U512.isZero_iff] at h0
    have hs := v.toNat_shiftRight1
    cases n with
    | zero => omega
    | succ n =>
      rw [pow_succ'] at hv
      exact Nat.succ_le_succ (ih (by omega))
  | @odd v d ds h0 ho _ _ ih =>
    rw [← Bool.not_eq_true, U512.isZero_iff] at h0
    rw [U512.isOdd_iff] at ho
    cases n with
    | zero => omega
    | succ n =>
      rw [pow_succ'] at hv
      exact Nat.succ_le_succ (ih (two_mul_rest_le hw0 hw ho (by omega)))

end Recoding

/-! ### Scalars -/

/-- What is asked of the digits of a scalar: the recoding comes to them and ends, they stand for
the scalar, and they have the shape that signed windows rely on. -/
structure Exact {κ : Type} [BitString κ] [LawfulBitString κ] (w : ℕ) (k : κ)
    (ds : List Int16) : Prop where
  recoding : Recoding w (BitString.wide k) ds
  sum_eq : ∑ i : Fin ds.length, ds[i].toInt * 2 ^ (i : ℕ) = toNat k
  isDigit : ∀ d ∈ ds, IsDigit w d.toInt
  spaced : ∀ d rest, d :: rest <:+ ds → d ≠ 0 → rest = [] ∨ List.replicate w 0 <+: rest
  getLast?_pos : ∀ d ∈ ds.getLast?, 0 < d.toInt
  length_le : ds.length ≤ BitString.bitLength k + 1

lemma exact_of_not_wraps {κ : Type} [BitString κ] [LawfulBitString κ] (hw0 : 0 < w) (hw : w ≤ 15)
    {k : κ} (hk : ¬Wraps w (toNat k)) : Exact w k (ofScalar k w) := by
  have h := Multiplication.recoding_ofScalar hw0 hw k
  rw [← toNat_wide] at hk
  have hlt := Nat.lt_size_self (toNat k)
  rw [← bitLength_eq] at hlt
  refine ⟨h, ?_, h.isDigit hw0 hw, fun _ _ => h.spaced hw0 hw, h.getLast?_pos hw0 hw hk, ?_⟩
  · rw [← value_eq_sum, h.value_eq hw0 hw hk, toNat_wide]
  · apply h.length_le hw0 hw
    rw [toNat_wide, pow_succ']
    omega

/-- **The recoding of a scalar is exact** for every window that 16 bits have room for. In 512
bits only the scalars next to `2 ^ 512` are left out. -/
theorem ofScalar_exact (hw0 : 1 ≤ w) (hw : w ≤ 15) :
    (∀ k : U256, Exact w k (ofScalar k w)) ∧
      ∀ k : U512, k.toNat < 2 ^ 512 - 2 ^ w → Exact w k (ofScalar k w) := by
  constructor
  · intro k
    have hk : toNat k < 2 ^ 256 := k.toNat_lt_two_pow
    exact exact_of_not_wraps hw0 hw (not_wraps_of_lt hw (by omega))
  · intro k hk
    apply exact_of_not_wraps hw0 hw
    rintro ⟨-, h⟩
    have hk : k.toNat + 2 ^ w < 2 ^ 512 := by omega
    exact absurd h hk.not_ge

/-- The greatest odd scalar that is far enough from `2 ^ 512` for a window of 4 has a digit more
than bits. -/
theorem ofScalar_exact_longest :
    let k : U512 := ⟨U256.zero.wrappingSub (.ofWord 17), U256.zero.wrappingSub .one⟩
    k.toNat = 2 ^ 512 - 17 ∧ Exact 4 k (ofScalar k 4) ∧ (ofScalar k 4).length = 513 := by
  intro k
  have hk : k.toNat = 2 ^ 512 - 17 := by
    have hlo : (U256.zero.wrappingSub (.ofWord 17)).toNat = 2 ^ 256 - 17 := by decide
    have hhi : (U256.zero.wrappingSub .one).toNat = 2 ^ 256 - 1 := by decide
    rw [U512.toNat_eq_halves, hlo, hhi]
    omega
  refine ⟨hk, ?_, by decide +kernel⟩
  exact (ofScalar_exact (w := 4) (by omega) (by omega)).2 k (by omega)

end Secp256k1.SignedDigits
