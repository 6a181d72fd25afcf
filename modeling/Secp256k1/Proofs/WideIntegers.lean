import Mathlib.Order.Bounds.Basic
import Secp256k1.Proofs.Integers

/-!
Integers of 256 and of 512 bits as integers modulo a power of two.

The operations on words are those on integers: sums and differences up to the width, with the
carry and the borrow that say whether they left it, halves, digits, length and order. A difference
with one word may stop as soon as nothing is borrowed; the words are the same.
-/

namespace Secp256k1

/-! ### Borrowing from one word after the other -/

namespace Word

/-- The words after `b` is taken away from the lowest one. What is missing there is borrowed from
the next word, and where nothing is missing the words above stay as they are. -/
def takeAway : List UInt64 → UInt64 → List UInt64
  | [], _ => []
  | x :: xs, b => if b = 0 then x :: xs else (x - b) :: takeAway xs (decide (x < b)).toUInt64

lemma takeAway_nil (b : UInt64) : takeAway [] b = [] := rfl

lemma takeAway_zero (xs : List UInt64) : takeAway xs 0 = xs := by
  cases xs <;> simp [takeAway]

lemma toUInt64_false : false.toUInt64 = 0 := rfl

/-- Going on with nothing to borrow would change nothing. -/
lemma takeAway_cons (x b : UInt64) (xs : List UInt64) :
    takeAway (x :: xs) b = (x - b) :: takeAway xs (decide (x < b)).toUInt64 := by
  rw [takeAway]
  split
  · next h =>
    have hlt : decide (x < 0) = false := by simp
    rw [h, hlt, UInt64.sub_zero, toUInt64_false, takeAway_zero]
  · rfl

lemma subBorrow_false (x b : UInt64) : subBorrow x b false = (x - b, decide (x < b)) := by
  simp [subBorrow, toUInt64_false]

lemma subBorrow_zero (x : UInt64) (c : Bool) :
    subBorrow x 0 c = (x - c.toUInt64, decide (x < c.toUInt64)) := by
  simp [subBorrow]

end Word

/-- The words, the least significant first. -/
def U512.words (x : U512) : List UInt64 := x.lo.words ++ x.hi.words

/-- The chain over the full width takes away the same as the one that stops early. -/
lemma U512.words_wrappingSubWord (x : U512) (w : UInt64) :
    (x.wrappingSubWord w).words = Word.takeAway x.words w := by
  simp only [words, U256.words, wrappingSubWord, U256.subBorrow, U256.ofWord, U256.zero,
    Word.subBorrow_false, Word.subBorrow_zero, Word.takeAway_cons, List.cons_append,
    List.nil_append, Word.takeAway_nil]

/-! ### Order -/

/-- Numbers are compared by their leading digits first. -/
lemma compare_two_pow_mul_add {k p q x y : ℕ} (hx : x < 2 ^ k) (hy : y < 2 ^ k) :
    compare (2 ^ k * p + x) (2 ^ k * q + y) = (compare p q).then (compare x y) := by
  rcases Nat.lt_trichotomy p q with h | rfl | h
  · have hle : 2 ^ k * (p + 1) ≤ 2 ^ k * q := Nat.mul_le_mul_left _ h
    rw [Nat.compare_eq_lt.mpr h, Nat.compare_eq_lt.mpr (by rw [Nat.mul_succ] at hle; omega)]
    rfl
  · rw [Nat.compare_eq_eq.mpr rfl, Ordering.eq_then]
    simp only [Nat.compare_eq_ite_lt, Nat.add_lt_add_iff_left]
  · have hle : 2 ^ k * (q + 1) ≤ 2 ^ k * p := Nat.mul_le_mul_left _ h
    rw [Nat.compare_eq_gt.mpr h, Nat.compare_eq_gt.mpr (by rw [Nat.mul_succ] at hle; omega)]
    rfl

lemma Word.compare_eq (a b : UInt64) : compare a b = compare a.toNat b.toNat := by
  have h : compare a b = compareOfLessAndEq a b := rfl
  simp only [h, compareOfLessAndEq, Nat.compare_eq_ite_lt, UInt64.lt_iff_toNat_lt,
    ← UInt64.toNat_inj]
  rcases Nat.lt_trichotomy a.toNat b.toNat with hab | hab | hab
  · rw [if_pos hab, if_pos hab]
  · rw [hab, if_neg (lt_irrefl _), if_pos rfl, if_neg (lt_irrefl _), if_neg (lt_irrefl _)]
  · rw [if_neg hab.asymm, if_neg hab.ne', if_neg hab.asymm, if_pos hab]

namespace U256

theorem compare_eq (a b : U256) : compare a b = compare a.toNat b.toNat := by
  have h : compare a b = (compare a.w3 b.w3).then ((compare a.w2 b.w2).then
      ((compare a.w1 b.w1).then (compare a.w0 b.w0))) := rfl
  rw [h, toNat_eq_digits a, toNat_eq_digits b, compare_two_pow_mul_add a.w0.toNat_lt b.w0.toNat_lt,
    compare_two_pow_mul_add a.w1.toNat_lt b.w1.toNat_lt,
    compare_two_pow_mul_add a.w2.toNat_lt b.w2.toNat_lt]
  simp only [Word.compare_eq, Ordering.then_assoc]

/-! ### Carry and borrow -/

lemma carry_iff (a b : U256) :
    (a.overflowingAdd b).2 = true ↔ 2 ^ 256 ≤ a.toNat + b.toNat := by
  have h := toNat_addCarry a b false
  have hl := (addCarry a b false).1.toNat_lt_two_pow
  rw [size_eq, Bool.toNat_false] at h
  rw [overflowingAdd]
  cases hc : (addCarry a b false).2 <;> rw [hc] at h <;> simp at h ⊢ <;> omega

lemma borrow_iff (a b : U256) : (a.overflowingSub b).2 = true ↔ a.toNat < b.toNat := a.lt_iff b

end U256

/-- A difference that wraps around is the residue of the difference. -/
lemma natCast_wrap {k x y : ℕ} (hy : y ≤ 2 ^ k) :
    (((2 ^ k + x - y) % 2 ^ k : ℕ) : ℤ) = ((x : ℤ) - y) % 2 ^ k := by
  have h : ((2 ^ k + x - y : ℕ) : ℤ) = (x : ℤ) - y + 2 ^ k := by
    rw [Nat.cast_sub (by omega)]
    push_cast
    ring
  rw [Int.natCast_mod, h]
  push_cast
  exact Int.add_emod_right ..

/-- The digit of a number that has the weight `2 ^ i`. -/
lemma testBit_iff (n i : ℕ) : n.testBit i = true ↔ n / 2 ^ i % 2 = 1 := by
  rw [Nat.testBit_eq_decide_div_mod_eq, decide_eq_true_iff]

lemma isLeast_size (n : ℕ) : IsLeast {k | n < 2 ^ k} n.size :=
  ⟨n.lt_size_self, fun _ hk => Nat.size_le.mpr hk⟩

/-- Operations on 256 bits, as operations on integers. -/
structure U256.ComputesIntegers (a b : U256) : Prop where
  sum : (a.overflowingAdd b).1.toNat = (a.toNat + b.toNat) % 2 ^ 256
  carry : (a.overflowingAdd b).2 = true ↔ 2 ^ 256 ≤ a.toNat + b.toNat
  difference : ((a.overflowingSub b).1.toNat : ℤ) = ((a.toNat : ℤ) - b.toNat) % 2 ^ 256
  borrow : (a.overflowingSub b).2 = true ↔ a.toNat < b.toNat
  order : compare a b = compare a.toNat b.toNat
  half : a.shiftRight1.toNat = a.toNat / 2
  bit : ∀ i, a.bit i = true ↔ a.toNat / 2 ^ i % 2 = 1
  bitLength : IsLeast {k | a.toNat < 2 ^ k} a.bitLength

lemma U256.computesIntegers (a b : U256) : ComputesIntegers a b where
  sum := toNat_wrappingAdd a b
  carry := carry_iff a b
  difference := by
    rw [← natCast_wrap b.toNat_lt_two_pow.le, ← toNat_wrappingSub]
    rfl
  borrow := borrow_iff a b
  order := compare_eq a b
  half := toNat_shiftRight1 a
  bit i := by rw [bit_eq_testBit, testBit_iff]
  bitLength := bitLength_eq_size a ▸ isLeast_size a.toNat

/-- Operations on 512 bits, as operations on integers. -/
structure U512.ComputesIntegers (x y : U512) (w : UInt64) : Prop where
  sum : (x.wrappingAdd y).toNat = (x.toNat + y.toNat) % 2 ^ 512
  sumWord : (x.wrappingAddWord w).toNat = (x.toNat + w.toNat) % 2 ^ 512
  differenceWord : ((x.wrappingSubWord w).toNat : ℤ) = ((x.toNat : ℤ) - w.toNat) % 2 ^ 512
  words_differenceWord : (x.wrappingSubWord w).words = Word.takeAway x.words w
  half : x.shiftRight1.toNat = x.toNat / 2
  bit : ∀ i, x.bit i = true ↔ x.toNat / 2 ^ i % 2 = 1
  bitLength : IsLeast {k | x.toNat < 2 ^ k} x.bitLength
  low : x.lo.toNat = x.toNat % 2 ^ 256
  high : x.hi.toNat = x.toNat / 2 ^ 256

lemma U512.computesIntegers (x y : U512) (w : UInt64) : ComputesIntegers x y w where
  sum := toNat_wrappingAdd x y
  sumWord := toNat_wrappingAddWord x w
  differenceWord := by
    have hw := w.toNat_lt
    rw [← natCast_wrap (by omega), ← toNat_wrappingSubWord]
  words_differenceWord := words_wrappingSubWord x w
  half := toNat_shiftRight1 x
  bit i := by rw [bit_eq_testBit, testBit_iff]
  bitLength := bitLength_eq_size x ▸ isLeast_size x.toNat
  low := by
    have hl := x.lo.toNat_lt_two_pow
    rw [toNat_eq_halves]
    omega
  high := by
    have hl := x.lo.toNat_lt_two_pow
    rw [toNat_eq_halves]
    omega

/-- **Integers of 256 and of 512 bits compute as integers do**, modulo their width: on every pair
of operands, with the carry and the borrow that a result up to the width leaves out. The halves of
512 bits are independent of each other. -/
theorem wideIntegers_compute_integers :
    (∀ a b : U256, a.ComputesIntegers b) ∧
    (∀ (x y : U512) (w : UInt64), x.ComputesIntegers y w) ∧
    ∀ low high : U256, (⟨low, high⟩ : U512).toNat = high.toNat * 2 ^ 256 + low.toNat := by
  refine ⟨U256.computesIntegers, U512.computesIntegers, ?_⟩
  intro low high
  rw [U512.toNat_eq_halves, Nat.mul_comm]

end Secp256k1
