import Mathlib.Logic.Function.Basic
import Mathlib.Tactic.IntervalCases
import Secp256k1.Proofs.Integers

/-!
Products of 256-bit integers, as they are worked out on paper.

On paper a column and the number that is carried into it may have any size: nothing on the sheet
is cut to a word or to two. The invariant of a row says that they are words all the same, and the
very words of the product with a fixed width; so that no sum is wider than two words, and nothing
is lost.
-/

namespace Secp256k1

/-- Two words and a product of words fill two words, and no more. -/
lemma Word.mulAdd_sum_lt (a b c d : UInt64) :
    a.toNat * b.toNat + c.toNat + d.toNat < 2 ^ 128 := by
  have h := toNat_mulAdd a b c d
  have h1 := (mulAdd a b c d).1.toNat_lt
  have h2 := (mulAdd a b c d).2.toNat_lt
  rw [UInt64.size] at h
  omega

/-- The two results are the sum, as digits in the base `2 ^ 64`. -/
lemma Word.mulAdd_eq_divMod (a b c d : UInt64) :
    (mulAdd a b c d).1.toNat = (a.toNat * b.toNat + c.toNat + d.toNat) % 2 ^ 64 ∧
      (mulAdd a b c d).2.toNat = (a.toNat * b.toNat + c.toNat + d.toNat) / 2 ^ 64 := by
  have h := toNat_mulAdd a b c d
  have h1 := (mulAdd a b c d).1.toNat_lt
  rw [UInt64.size] at h
  omega

namespace U256

/-! ### Rows of words -/

section Rows

variable (x : UInt64) (b acc : U256)

/-- The word that a row carries into its step `j`. -/
def carryInto : ℕ → UInt64
  | 0 => 0
  | j + 1 => (Word.mulAdd x (b.word j) (acc.word j) (carryInto j)).2

lemma word_mulRow {j : ℕ} (hj : j < 4) : (mulRow x b acc).1.word j =
    (Word.mulAdd x (b.word j) (acc.word j) (carryInto x b acc j)).1 := by
  interval_cases j <;> rfl

end Rows

variable (a b : U256)

/-- The words that row `i` adds to, which the rows before it have left from word `i` on. -/
def heldBefore : ℕ → U256
  | 0 => zero
  | i + 1 =>
    let r := mulRow (a.word i) b (heldBefore i)
    ⟨r.1.w1, r.1.w2, r.1.w3, r.2⟩

lemma word_mulWide_of_lt {i : ℕ} (hi : i < 4) :
    (a.mulWide b).word i = (mulRow (a.word i) b (heldBefore a b i)).1.word 0 := by
  interval_cases i <;> rfl

lemma word_mulWide_add (j : ℕ) : (a.mulWide b).word (4 + j) = (heldBefore a b 4).word j := by
  rw [U512.word, if_neg (by omega), Nat.add_sub_cancel_left]
  rfl

/-! ### The sheet -/

/-- The columns of a product under work and the number carried into the next one. -/
structure Sheet where
  column : ℕ → ℕ
  carry : ℕ

namespace Sheet

variable (s : Sheet) (i j : ℕ)

/-- What a step adds up: a product of two words, what is in the column, and what is carried. -/
def sum : ℕ := (a.word i).toNat * (b.word j).toNat + s.column (i + j) + s.carry

/-- A step leaves the last 64 bits of the sum in the column and carries the others. -/
def step : Sheet :=
  ⟨Function.update s.column (i + j) (s.sum a b i j % 2 ^ 64), s.sum a b i j / 2 ^ 64⟩

/-- The first `j` steps of row `i`; nothing is carried into the first one. -/
def steps : ℕ → Sheet
  | 0 => { s with carry := 0 }
  | j + 1 => (steps j).step a b i j

/-- Row `i`. What its last step carries stands in a column of its own. -/
def row : Sheet :=
  let t := s.steps a b i 4
  { t with column := Function.update t.column (i + 4) t.carry }

variable {s i j} {k : ℕ}

lemma column_step_self : (s.step a b i j).column (i + j) = s.sum a b i j % 2 ^ 64 :=
  Function.update_self ..

lemma column_step_of_ne (h : k ≠ i + j) : (s.step a b i j).column k = s.column k :=
  Function.update_of_ne h ..

lemma column_row_self : (s.row a b i).column (i + 4) = (s.steps a b i 4).carry :=
  Function.update_self ..

lemma column_row_of_ne (h : k ≠ i + 4) : (s.row a b i).column k = (s.steps a b i 4).column k :=
  Function.update_of_ne h ..

end Sheet

/-- The sheet after so many rows. -/
def sheet : ℕ → Sheet
  | 0 => ⟨fun _ => 0, 0⟩
  | i + 1 => (sheet i).row a b i

/-! ### What is on the sheet -/

/-- What row `i` has on the sheet before its step `j`, when it adds to the words `acc`: the words
that it has computed, then those that it has not come to, and below them what earlier rows have
left. -/
structure Sheet.During (s t : Sheet) (acc : U256) (i j : ℕ) : Prop where
  carry : t.carry = (carryInto (a.word i) b acc j).toNat
  done : ∀ k < j, t.column (i + k) = ((mulRow (a.word i) b acc).1.word k).toNat
  left : ∀ k, j ≤ k → k < 4 → t.column (i + k) = (acc.word k).toNat
  below : ∀ k < i, t.column k = s.column k

namespace Sheet

variable {a b} {s t : Sheet} {acc : U256} {i j : ℕ}

lemma During.sum_eq (h : During a b s t acc i j) (hj : j < 4) : t.sum a b i j =
    (a.word i).toNat * (b.word j).toNat + (acc.word j).toNat +
      (carryInto (a.word i) b acc j).toNat := by
  rw [sum, h.left j le_rfl hj, h.carry]

lemma During.step (h : During a b s t acc i j) (hj : j < 4) :
    During a b s (t.step a b i j) acc i (j + 1) := by
  obtain ⟨hlow, hhigh⟩ := Word.mulAdd_eq_divMod (a.word i) (b.word j) (acc.word j)
    (carryInto (a.word i) b acc j)
  rw [← h.sum_eq hj] at hlow hhigh
  constructor
  · exact hhigh.symm
  · intro k hk
    rcases Nat.lt_succ_iff_lt_or_eq.mp hk with hk | rfl
    · rw [column_step_of_ne _ _ (by omega), h.done k hk]
    · rw [column_step_self, word_mulRow _ _ _ hj, hlow]
  · intro k hjk hk
    rw [column_step_of_ne _ _ (by omega), h.left k (by omega) hk]
  · intro k hk
    rw [column_step_of_ne _ _ (by omega), h.below k hk]

/-- The invariant of a row. -/
lemma during_steps (h : ∀ k < 4, s.column (i + k) = (acc.word k).toNat) (hj : j ≤ 4) :
    During a b s (s.steps a b i j) acc i j := by
  induction j with
  | zero => exact ⟨rfl, fun k hk => absurd hk k.not_lt_zero, fun k _ => h k, fun _ _ => rfl⟩
  | succ j ih => exact (ih (by omega)).step (by omega)

/-- What the sheet has before row `i`: words of the product that are final, and the words that the
row adds to. -/
structure Before (a b : U256) (s : Sheet) (i : ℕ) : Prop where
  final : ∀ k < i, s.column k = ((a.mulWide b).word k).toNat
  held : ∀ k < 4, s.column (i + k) = ((heldBefore a b i).word k).toNat

lemma Before.row (h : Before a b s i) (hi : i < 4) : Before a b (s.row a b i) (i + 1) := by
  have hd := during_steps (a := a) (b := b) h.held le_rfl
  constructor
  · intro k hk
    rw [column_row_of_ne _ _ (by omega)]
    rcases Nat.lt_succ_iff_lt_or_eq.mp hk with hk | rfl
    · rw [hd.below k hk, h.final k hk]
    · rw [word_mulWide_of_lt a b hi, ← hd.done 0 (by omega), Nat.add_zero]
  · intro k hk
    have hword : (heldBefore a b (i + 1)).word k =
        if k = 3 then carryInto (a.word i) b (heldBefore a b i) 4
        else (mulRow (a.word i) b (heldBefore a b i)).1.word (k + 1) := by
      interval_cases k <;> rfl
    rw [hword, Nat.add_assoc, Nat.add_comm 1 k]
    split
    · next h3 => rw [h3, column_row_self, hd.carry]
    · next h3 => rw [column_row_of_ne _ _ (by omega), hd.done (k + 1) (by omega)]

end Sheet

variable {a b} in
/-- The invariant of the rows. -/
lemma before_sheet {i : ℕ} (hi : i ≤ 4) : (sheet a b i).Before a b i := by
  induction i with
  | zero =>
    refine ⟨fun k hk => absurd hk k.not_lt_zero, fun k hk => ?_⟩
    interval_cases k <;> rfl
  | succ i ih => exact (ih (by omega)).row (by omega)

/-- **Products are exact**: the words of a product are the columns of the sheet on which nothing
is ever cut off, and stand for the product of the integers. Whatever the factors, each of the
sixteen sums on the sheet has two words at most and each number carried has one. -/
theorem mulWide_exact :
    (a.mulWide b).toNat = a.toNat * b.toNat ∧
    (∀ i < 4, ∀ j < 4,
      ((sheet a b i).steps a b i j).sum a b i j < 2 ^ 128 ∧
      ((sheet a b i).steps a b i j).carry < 2 ^ 64 ∧
      ((sheet a b i).steps a b i (j + 1)).carry < 2 ^ 64) ∧
    ∀ k < 8, (sheet a b 4).column k = ((a.mulWide b).word k).toNat := by
  refine ⟨U512.toNat_mulWide a b, ?_, ?_⟩
  · intro i hi j hj
    have hheld := (before_sheet (a := a) (b := b) hi.le).held
    have hd := Sheet.during_steps (a := a) (b := b) hheld hj.le
    have hd' := Sheet.during_steps (a := a) (b := b) hheld (Nat.succ_le_of_lt hj)
    rw [hd.sum_eq hj, hd.carry, hd'.carry]
    exact ⟨Word.mulAdd_sum_lt _ _ _ _, UInt64.toNat_lt _, UInt64.toNat_lt _⟩
  · intro k hk
    have h := before_sheet (a := a) (b := b) le_rfl
    rcases Nat.lt_or_ge k 4 with hk4 | hk4
    · exact h.final k hk4
    · obtain ⟨j, rfl⟩ := Nat.exists_eq_add_of_le hk4
      rw [word_mulWide_add]
      exact h.held j (by omega)

/-- Two words leave no room: the square of the greatest integer has a sum of `2 ^ 128 - 1`, and
the number carried from it is the greatest word. -/
theorem mulWide_exact_greatest :
    ((sheet (zero.wrappingSub one) (zero.wrappingSub one) 1).steps (zero.wrappingSub one)
      (zero.wrappingSub one) 1 1).sum (zero.wrappingSub one) (zero.wrappingSub one) 1 1 =
        2 ^ 128 - 1 ∧
    ((sheet (zero.wrappingSub one) (zero.wrappingSub one) 1).steps (zero.wrappingSub one)
      (zero.wrappingSub one) 1 2).carry < 2 ^ 64 := by
  obtain ⟨-, hsums, -⟩ := mulWide_exact (zero.wrappingSub one) (zero.wrappingSub one)
  exact ⟨by decide +kernel, (hsums 1 (by decide) 1 (by decide)).2.2⟩

end U256

end Secp256k1
