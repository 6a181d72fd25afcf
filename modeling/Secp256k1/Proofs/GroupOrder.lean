import Mathlib.Algebra.Module.ZMod
import Mathlib.GroupTheory.Perm.Cycle.Type
import Secp256k1.Proofs.Field
import Secp256k1.Proofs.Plane

/-!
The points of the curve form a group of prime order.

The generator is multiplied by the group order in the kernel, on triples of natural numbers,
and gives infinity. So the order divides the number of points; there are at most two points
for each abscissa, which leaves room for twice the order, and no point of order two, as -7 is
no cube. Hence the order is the number of points, and takes every point to infinity.
-/

namespace Secp256k1

open WeierstrassCurve.Affine

/-- The group of the curve `y² = x³ + 7`. -/
abbrev CurvePoint : Type := (curve (7 : Fp)).Point

/-- The integers modulo the group order. -/
abbrev Fn : Type := ZMod groupOrder

/-- The curve has no singular point. -/
lemma nonsingular_iff_equation (x y : Fp) :
    (curve (7 : Fp)).Nonsingular x y ↔ y ^ 2 = x ^ 3 + 7 := by
  rw [nonsingular_curve two_ne_zero_Fp three_ne_zero_Fp, and_iff_left_iff_imp]
  intro h
  by_contra hc
  obtain ⟨rfl, rfl⟩ : x = 0 ∧ y = 0 := by simpa using hc
  exact seven_ne_zero_Fp (by simpa using h.symm)

/-! ### No point of order two -/

/-- -7 is no cube. -/
lemma pow_three_ne (x : Fp) : x ^ 3 ≠ -7 := by
  intro h
  have h0 : x ≠ 0 := by
    rintro rfl
    rw [zero_pow three_ne_zero, zero_eq_neg] at h
    exact seven_ne_zero_Fp h
  have hc : ((fieldPrime - 7 : ℕ) : Fp) = -7 := by
    rw [Nat.cast_sub (by decide), ZMod.natCast_self, zero_sub]
    rfl
  -- a cube has a third of the order, and the kernel computes that -7 has not
  have hp : powMod fieldPrime (fieldPrime - 7) 256 ((fieldPrime - 1) / 3) ≠ 1 := by decide +kernel
  rw [powMod_eq _ _ (by decide)] at hp
  obtain ⟨k, hk⟩ : ∃ k, k = (fieldPrime - 1) / 3 := ⟨_, rfl⟩
  have hk3 : 3 * k = fieldPrime - 1 := by rw [hk]; decide
  rw [← hk] at hp
  have h1 : (((fieldPrime - 7) ^ k : ℕ) : Fp) = (1 : ℕ) := by
    rw [Nat.cast_pow, hc, ← h, ← pow_mul, hk3, ZMod.pow_card_sub_one_eq_one h0, Nat.cast_one]
  rw [ZMod.natCast_eq_natCast_iff'] at h1
  exact hp h1

lemma y_ne_zero {x y : Fp} (h : (curve (7 : Fp)).Nonsingular x y) : y ≠ 0 := by
  rintro rfl
  rw [nonsingular_iff_equation] at h
  exact pow_three_ne x (by linear_combination -h)

/-- A residue and its opposite have different parities. -/
lemma val_neg_odd_iff {y : Fp} (hy : y ≠ 0) : (-y).val % 2 = 1 ↔ ¬y.val % 2 = 1 := by
  have hlt := y.val_lt
  have hodd : fieldPrime % 2 = 1 := by decide
  have : NeZero y := ⟨hy⟩
  rw [ZMod.val_neg_of_ne_zero]
  omega

/-- Two points with one abscissa, and ordinates of one parity, are equal. -/
lemma y_eq_of_parity {x y₁ y₂ : Fp} (h₁ : (curve (7 : Fp)).Nonsingular x y₁)
    (h₂ : (curve (7 : Fp)).Nonsingular x y₂) (h : y₁.val % 2 = 1 ↔ y₂.val % 2 = 1) : y₁ = y₂ := by
  have hsq : y₁ ^ 2 = y₂ ^ 2 := by
    rw [(equation_curve x y₁).mp h₁.1, (equation_curve x y₂).mp h₂.1]
  refine (sq_eq_sq_iff_eq_or_eq_neg.mp hsq).resolve_right ?_
  rintro rfl
  rw [val_neg_odd_iff (y_ne_zero h₂)] at h
  tauto

lemma add_self_ne_zero {P : CurvePoint} (hP : P ≠ 0) : P + P ≠ 0 := by
  rcases P with _ | ⟨x, y, h⟩
  · exact absurd rfl hP
  · have hy : y ≠ (curve (7 : Fp)).negY x y := by
      rw [negY_curve, ne_eq, eq_neg_iff_add_eq_zero, ← two_mul]
      exact mul_ne_zero two_ne_zero_Fp (y_ne_zero h)
    rw [Point.add_self_of_Y_ne hy]
    exact Point.some_ne_zero _

/-! ### The number of points -/

/-- What tells a point from all others: its abscissa and the parity of its ordinate. -/
def pointCode : CurvePoint → Option (Fp × Bool)
  | .zero => none
  | .some x y _ => some (x, decide (y.val % 2 = 1))

lemma pointCode_injective : Function.Injective pointCode := by
  rintro (_ | ⟨x₁, y₁, h₁⟩) (_ | ⟨x₂, y₂, h₂⟩) h
  · rfl
  · exact absurd h (by simp [pointCode])
  · exact absurd h (by simp [pointCode])
  · simp only [pointCode, Option.some.injEq, Prod.mk.injEq, decide_eq_decide] at h
    obtain ⟨rfl, hy⟩ := h
    obtain rfl := y_eq_of_parity h₁ h₂ hy
    rfl

instance : Finite CurvePoint := Finite.of_injective pointCode pointCode_injective

lemma card_curvePoint_le : Nat.card CurvePoint ≤ 2 * fieldPrime + 1 := by
  refine (Nat.card_le_card_of_injective pointCode pointCode_injective).trans_eq ?_
  rw [Nat.card_eq_fintype_card, Fintype.card_option, Fintype.card_prod, ZMod.card,
    Fintype.card_bool, mul_comm]

/-! ### The order of the generator -/

lemma nonsingular_generator : (curve (7 : Fp)).Nonsingular
    (Parameters.generatorX.toNat : Fp) (Parameters.generatorY.toNat : Fp) := by
  rw [nonsingular_iff_equation]
  have h : (Parameters.generatorY.toNat ^ 2 : ℕ) ≡ Parameters.generatorX.toNat ^ 3 + 7
      [MOD fieldPrime] := by decide +kernel
  exact_mod_cast (ZMod.natCast_eq_natCast_iff _ _ _).mpr h

/-- The generator of the group. -/
def basePoint : CurvePoint := .some _ _ nonsingular_generator

lemma represents_basePoint : Represents (Parameters.generatorX.toNat : Fp)
    (Parameters.generatorY.toNat : Fp) 1 basePoint :=
  Represents.affine nonsingular_generator

lemma basePoint_ne_zero : basePoint ≠ 0 := Point.some_ne_zero _

/-- A triple of coordinates, as residues. -/
structure Triple where
  x : ℕ
  y : ℕ
  z : ℕ

namespace Triple

/-- `-a` modulo the field prime. -/
def opposite (a : ℕ) : ℕ := fieldPrime - a % fieldPrime

def double (t : Triple) : Triple :=
  let a := 3 * t.x * t.x % fieldPrime
  let b := t.y * t.y % fieldPrime
  let c := 4 * t.x * b % fieldPrime
  let x := (a * a + 2 * opposite c) % fieldPrime
  ⟨x, (a * (c + opposite x) + 8 * opposite (b * b)) % fieldPrime, 2 * t.y * t.z % fieldPrime⟩

/-- The sum with the base point, unless the chord formula does not apply. -/
def addBase (t : Triple) : Option Triple :=
  let zz := t.z * t.z % fieldPrime
  let h := (Parameters.generatorX.toNat * zz + opposite t.x) % fieldPrime
  let r := (Parameters.generatorY.toNat * (zz * t.z % fieldPrime) + opposite t.y) % fieldPrime
  let hh := h * h % fieldPrime
  let v := t.x * hh % fieldPrime
  let hhh := hh * h % fieldPrime
  let x := (r * r + opposite hhh + 2 * opposite v) % fieldPrime
  if t.z % fieldPrime = 0 ∨ h = 0 ∧ r = 0 then none
  else some ⟨x, (r * (v + opposite x) + opposite (t.y * hhh)) % fieldPrime, t.z * h % fieldPrime⟩

/-- The multiple of the base point by `k`, which is at least 1 and has at most so many bits
after the first one. -/
def multiple : ℕ → ℕ → Option Triple
  | 0, _ => some ⟨Parameters.generatorX.toNat, Parameters.generatorY.toNat, 1⟩
  | bits + 1, k => do
    let t ← multiple bits (k / 2)
    if k % 2 = 0 then return t.double else t.double.addBase

/-- A triple of residues stands for a point. -/
def Stands (t : Triple) (P : CurvePoint) : Prop := Represents (t.x : Fp) (t.y : Fp) (t.z : Fp) P

lemma cast_mod (a : ℕ) : ((a % fieldPrime : ℕ) : Fp) = a := ZMod.natCast_mod a _

lemma cast_opposite (a : ℕ) : (opposite a : Fp) = -a := by
  rw [opposite, Nat.cast_sub (Nat.mod_lt _ prime_fieldPrime.pos).le, ZMod.natCast_self, cast_mod,
    zero_sub]

lemma mod_eq_zero_iff (a : ℕ) : a % fieldPrime = 0 ↔ (a : Fp) = 0 := by
  rw [ZMod.natCast_eq_zero_iff, Nat.dvd_iff_mod_eq_zero]

lemma Stands.double {t : Triple} {P : CurvePoint} (h : t.Stands P) : t.double.Stands (P + P) := by
  have hd := Represents.double two_ne_zero_Fp h
  unfold Stands
  convert hd using 1
  · simp only [Triple.double, cast_mod, cast_opposite, Nat.cast_add, Nat.cast_mul, Nat.cast_ofNat]
    ring
  · simp only [Triple.double, cast_mod, cast_opposite, Nat.cast_add, Nat.cast_mul, Nat.cast_ofNat]
    ring
  · simp only [Triple.double, cast_mod, Nat.cast_mul, Nat.cast_ofNat]

lemma Stands.addBase {t t' : Triple} {P : CurvePoint} (h : t.Stands P)
    (e : t.addBase = some t') : t'.Stands (P + basePoint) := by
  rw [Triple.addBase] at e
  split at e
  · exact absurd e (by simp)
  · next hne =>
    obtain rfl := Option.some.inj e
    rw [not_or, not_and_or, mod_eq_zero_iff, mod_eq_zero_iff, mod_eq_zero_iff] at hne
    simp only [cast_mod, cast_opposite, Nat.cast_add, Nat.cast_mul] at hne
    have hc := h.chord two_ne_zero_Fp represents_basePoint hne.1 one_ne_zero rfl rfl
      (hne.2.imp (fun hh he => hh (by linear_combination he))
        fun hr he => hr (by linear_combination he))
    unfold Stands
    convert hc using 1
    · simp only [cast_mod, cast_opposite, Nat.cast_add, Nat.cast_mul, Nat.cast_ofNat]
      ring
    · simp only [cast_mod, cast_opposite, Nat.cast_add, Nat.cast_mul, Nat.cast_ofNat]
      ring
    · simp only [cast_mod, cast_opposite, Nat.cast_add, Nat.cast_mul]
      ring

/-- Doubling and adding gives the multiple, as long as no chord is degenerate. -/
lemma stands_multiple {bits k : ℕ} (hk : k / 2 ^ bits = 1) {t : Triple}
    (e : multiple bits k = some t) : t.Stands (k • basePoint) := by
  induction bits generalizing k t with
  | zero =>
    obtain rfl : k = 1 := by simpa using hk
    obtain rfl := Option.some.inj e
    rw [one_nsmul, Stands, Nat.cast_one]
    exact represents_basePoint
  | succ bits ih =>
    rw [pow_succ', ← Nat.div_div_eq_div_mul] at hk
    rw [multiple, Option.bind_eq_bind, Option.bind_eq_some_iff] at e
    obtain ⟨u, hu, e⟩ := e
    have hd := (ih hk hu).double
    rw [← add_nsmul] at hd
    split at e
    · obtain rfl := Option.some.inj e
      have hk2 : k / 2 + k / 2 = k := by omega
      rwa [hk2] at hd
    · have hk2 : k / 2 + k / 2 + 1 = k := by omega
      rw [← hk2, succ_nsmul]
      exact hd.addBase e

end Triple

lemma order_nsmul_basePoint : groupOrder • basePoint = 0 := by
  have h : (Triple.multiple 255 groupOrder).any (·.z == 0) = true := by decide +kernel
  rw [Option.any_eq_true] at h
  obtain ⟨t, ht, hz⟩ := h
  have hs := Triple.stands_multiple (by decide) ht
  rw [hs.eq_zero_iff, beq_iff_eq.mp hz, Nat.cast_zero]

/-! ### The order of the group -/

/-- **The group order is the number of points.** -/
theorem card_curvePoint : Nat.card CurvePoint = groupOrder := by
  have ho : addOrderOf basePoint = groupOrder :=
    addOrderOf_eq_prime order_nsmul_basePoint basePoint_ne_zero
  obtain ⟨k, hk⟩ : groupOrder ∣ Nat.card CurvePoint := ho ▸ addOrderOf_dvd_natCard basePoint
  have hle := card_curvePoint_le
  have hpos : 0 < Nat.card CurvePoint := Nat.card_pos
  have h3 : 2 * fieldPrime + 1 < groupOrder * 3 := by decide
  have hk3 : k < 3 := Nat.lt_of_mul_lt_mul_left (hk ▸ hle.trans_lt h3)
  have hk0 : k ≠ 0 := by
    rintro rfl
    omega
  have hk2 : k ≠ 2 := by
    rintro rfl
    have hdvd : 2 ∣ Nat.card CurvePoint := hk ▸ dvd_mul_left 2 _
    obtain ⟨P, hP⟩ := exists_prime_addOrderOf_dvd_card' 2 hdvd
    have hP0 : P ≠ 0 := by
      rintro rfl
      simp at hP
    apply add_self_ne_zero hP0
    rw [← two_nsmul, ← hP, addOrderOf_nsmul_eq_zero]
  obtain rfl : k = 1 := by omega
  rw [hk, mul_one]

theorem order_nsmul (P : CurvePoint) : groupOrder • P = 0 := by
  rw [← card_curvePoint, ← addOrderOf_dvd_iff_nsmul_eq_zero]
  exact addOrderOf_dvd_natCard P

/-- Multiples of points by residues modulo the group order. -/
instance : Module Fn CurvePoint := AddCommGroup.zmodModule order_nsmul

lemma natCast_smul (k : ℕ) (P : CurvePoint) : (k : Fn) • P = k • P := Nat.cast_smul_eq_nsmul Fn k P

end Secp256k1
