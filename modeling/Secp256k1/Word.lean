/-!
Arithmetic on one 64-bit word.

Every routine on wider integers is a chain of three steps: add with a carry, subtract with a
borrow, and multiply with two words added on top. Each step keeps the whole result: the low
word comes first, and what does not fit into it comes second.
-/

namespace Secp256k1.Word

/-- The low and the high half of a word. -/
@[inline] def low32 (a : UInt64) : UInt64 := a &&& 0xFFFFFFFF

@[inline] def high32 (a : UInt64) : UInt64 := a >>> 32

/-- `a + b + carry`: the low word, and the carry out. -/
@[inline] def addCarry (a b : UInt64) (carry : Bool) : UInt64 × Bool :=
  let s := a + b
  let t := s + carry.toUInt64
  (t, decide (s < a) || decide (t < s))

/-- `a - b - borrow`: the low word, and the borrow out. -/
@[inline] def subBorrow (a b : UInt64) (borrow : Bool) : UInt64 × Bool :=
  let d := a - b
  (d - borrow.toUInt64, decide (a < b) || decide (d < borrow.toUInt64))

/-- The 128-bit product `a * b`, low word first, from the four products of the halves. The
middle column is a sum of three halves, so it has a carry of its own into the high word. -/
@[inline] def mulWide (a b : UInt64) : UInt64 × UInt64 :=
  let ll := low32 a * low32 b
  let lh := low32 a * high32 b
  let hl := high32 a * low32 b
  let hh := high32 a * high32 b
  let mid := high32 ll + low32 lh + low32 hl
  ((mid <<< 32) + low32 ll, hh + high32 lh + high32 hl + high32 mid)

/-- `a * b + c + d`, low word first. The largest value is `2 ^ 128 - 1`, so the high word takes
both carries without a wrap. -/
@[inline] def mulAdd (a b c d : UInt64) : UInt64 × UInt64 :=
  let p := mulWide a b
  let s := p.1 + c
  let t := s + d
  (t, p.2 + (decide (s < c)).toUInt64 + (decide (t < d)).toUInt64)

/-- Bit `i` of a word, where `i` is below 64. -/
@[inline] def bit (a : UInt64) (i : Nat) : Bool := (a >>> i.toUInt64) &&& 1 == 1

/-- The number of bits up to the highest one that is set. -/
@[inline] def bitLength (a : UInt64) : Nat := if a == 0 then 0 else a.log2.toNat + 1

/-- The byte of a word that has the weight `256 ^ i`, where `i` is below 8. -/
@[inline] def byte (a : UInt64) (i : Nat) : UInt8 := (a >>> (8 * i).toUInt64).toUInt8

/-! ### Values

A step computes what its name says: the two results together have the value of the sum. -/

theorem toNat_toUInt64 (b : Bool) : b.toUInt64.toNat = b.toNat := by cases b <;> rfl

theorem toNat_or_decide (p q : Prop) [Decidable p] [Decidable q] :
    (decide p || decide q).toNat = if p ∨ q then 1 else 0 := by
  by_cases hp : p <;> by_cases hq : q <;> simp [hp, hq]

theorem toNat_addCarry (a b : UInt64) (carry : Bool) :
    (addCarry a b carry).1.toNat + UInt64.size * (addCarry a b carry).2.toNat =
      a.toNat + b.toNat + carry.toNat := by
  have ha := a.toNat_lt
  have hb := b.toNat_lt
  have hc := carry.toNat_le
  simp only [addCarry, toNat_or_decide, UInt64.lt_iff_toNat_lt, UInt64.toNat_add, toNat_toUInt64,
    UInt64.size]
  split <;> omega

theorem toNat_subBorrow (a b : UInt64) (borrow : Bool) :
    (subBorrow a b borrow).1.toNat + b.toNat + borrow.toNat =
      a.toNat + UInt64.size * (subBorrow a b borrow).2.toNat := by
  have ha := a.toNat_lt
  have hb := b.toNat_lt
  have hc := borrow.toNat_le
  simp only [subBorrow, toNat_or_decide, UInt64.lt_iff_toNat_lt, UInt64.toNat_sub, toNat_toUInt64,
    UInt64.size]
  split <;> omega

theorem toNat_low32 (a : UInt64) : (low32 a).toNat = a.toNat % UInt32.size := by
  simpa [low32] using Nat.and_two_pow_sub_one_eq_mod a.toNat 32

theorem toNat_high32 (a : UInt64) : (high32 a).toNat = a.toNat / UInt32.size := by
  simp [high32, Nat.shiftRight_eq_div_pow]

theorem toNat_high32_lt (a : UInt64) : (high32 a).toNat < UInt32.size := by
  have h := a.toNat_lt
  simp only [toNat_high32, UInt32.size] at *
  omega

/-- Two halves multiply to one word, and leave room in it for two more halves. -/
theorem toNat_mul_halves {a b : UInt64} (ha : a.toNat < UInt32.size) (hb : b.toNat < UInt32.size) :
    (a * b).toNat = a.toNat * b.toNat ∧
      a.toNat * b.toNat + 2 * (UInt32.size - 1) < UInt64.size := by
  have h : a.toNat * b.toNat ≤ 4294967295 * 4294967295 :=
    Nat.mul_le_mul (Nat.le_of_lt_succ ha) (Nat.le_of_lt_succ hb)
  simp only [UInt64.toNat_mul, UInt32.size, UInt64.size]
  omega

theorem toNat_mulWide (a b : UInt64) :
    (mulWide a b).1.toNat + UInt64.size * (mulWide a b).2.toNat = a.toNat * b.toNat := by
  have la : (low32 a).toNat < UInt32.size := toNat_low32 a ▸ Nat.mod_lt _ (by decide)
  have lb : (low32 b).toNat < UInt32.size := toNat_low32 b ▸ Nat.mod_lt _ (by decide)
  have ea : (low32 a).toNat + UInt32.size * (high32 a).toNat = a.toNat := by
    rw [toNat_low32, toNat_high32, Nat.mod_add_div]
  have eb : (low32 b).toNat + UInt32.size * (high32 b).toNat = b.toNat := by
    rw [toNat_low32, toNat_high32, Nat.mod_add_div]
  have ha := toNat_high32_lt a
  have hb := toNat_high32_lt b
  obtain ⟨hll, bll⟩ := toNat_mul_halves la lb
  obtain ⟨hlh, blh⟩ := toNat_mul_halves la hb
  obtain ⟨hhl, bhl⟩ := toNat_mul_halves ha lb
  obtain ⟨hhh, bhh⟩ := toNat_mul_halves ha hb
  have h : a.toNat * b.toNat = (low32 a * low32 b).toNat +
      UInt32.size * ((low32 a * high32 b).toNat + (high32 a * low32 b).toNat) +
      UInt64.size * (high32 a * high32 b).toNat := by
    rw [hll, hlh, hhl, hhh, ← ea, ← eb]
    grind
  rw [← hll] at bll
  rw [← hlh] at blh
  rw [← hhl] at bhl
  rw [← hhh] at bhh
  rw [h]
  simp only [mulWide]
  generalize low32 a * low32 b = ll at *
  generalize low32 a * high32 b = lh at *
  generalize high32 a * low32 b = hl at *
  generalize high32 a * high32 b = hh at *
  have hs : ∀ x : UInt64, (x <<< 32).toNat = x.toNat * UInt32.size % UInt64.size := by
    intro x; simp [Nat.shiftLeft_eq]
  simp only [UInt64.toNat_add, hs, toNat_low32, toNat_high32, UInt32.size, UInt64.size] at *
  omega

theorem toNat_mulAdd (a b c d : UInt64) :
    (mulAdd a b c d).1.toNat + UInt64.size * (mulAdd a b c d).2.toNat =
      a.toNat * b.toNat + c.toNat + d.toNat := by
  have h := toNat_mulWide a b
  have hm : a.toNat * b.toNat ≤ 18446744073709551615 * 18446744073709551615 :=
    Nat.mul_le_mul (Nat.le_of_lt_succ a.toNat_lt) (Nat.le_of_lt_succ b.toNat_lt)
  have h1 := (mulWide a b).1.toNat_lt
  have hc := c.toNat_lt
  have hd := d.toNat_lt
  rw [← h] at hm ⊢
  have e (p : Prop) [Decidable p] : (decide p).toNat = if p then 1 else 0 := by
    by_cases hp : p <;> simp [hp]
  simp only [mulAdd, UInt64.toNat_add, toNat_toUInt64, e, UInt64.lt_iff_toNat_lt, UInt64.size] at *
  split <;> split <;> omega

end Secp256k1.Word
