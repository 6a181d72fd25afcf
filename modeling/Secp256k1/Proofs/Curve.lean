import Mathlib.AlgebraicGeometry.EllipticCurve.Affine.Point
import Mathlib.Tactic.LinearCombination

/-!
The curves `y² = x³ + b` over a field, and coordinate triples of their points.

A triple `(x, y, z)` represents the affine point `(x / z², y / z³)`, and infinity if `z` is
zero. The formulas for tangents and chords are the ones of the group law. Nothing here depends
on `b`, so each point of the plane but the origin is on exactly one of the curves.
-/

namespace Secp256k1

open WeierstrassCurve.Affine

variable {F : Type} [Field F] [DecidableEq F] {b : F}

/-- The curve `y² = x³ + b`. -/
def curve (b : F) : WeierstrassCurve.Affine F := ⟨0, 0, 0, 0, b⟩

omit [DecidableEq F] in
@[simp] lemma negY_curve (x y : F) : (curve b).negY x y = -y := by simp [negY, curve]

omit [DecidableEq F] in
lemma equation_curve (x y : F) : (curve b).Equation x y ↔ y ^ 2 = x ^ 3 + b := by
  simp [equation_iff, curve]

omit [DecidableEq F] in
/-- The only singular point of such a curve is the origin. -/
lemma nonsingular_curve (h2 : (2 : F) ≠ 0) (h3 : (3 : F) ≠ 0) (x y : F) :
    (curve b).Nonsingular x y ↔ y ^ 2 = x ^ 3 + b ∧ (x ≠ 0 ∨ y ≠ 0) := by
  have hy : y ≠ -y ↔ y ≠ 0 := by
    rw [ne_eq, eq_neg_iff_add_eq_zero, ← two_mul, mul_eq_zero, or_iff_right h2]
  have hx : (0 : F) ≠ 3 * x ^ 2 ↔ x ≠ 0 := by
    rw [ne_comm, ne_eq, mul_eq_zero, or_iff_right h3, pow_eq_zero_iff two_ne_zero]
  rw [nonsingular_iff, equation_curve]
  simp [curve, hx, hy]

/-! ### Tangents and chords -/

/-- Two points with one abscissa and different ordinates are opposite. -/
lemma add_eq_zero_of_x_eq {x y₁ y₂ : F} {h₁ : (curve b).Nonsingular x y₁}
    {h₂ : (curve b).Nonsingular x y₂} (hy : y₁ ≠ y₂) :
    (Point.some x y₁ h₁ + Point.some x y₂ h₂ : (curve b).Point) = 0 := by
  have hsq : y₁ ^ 2 = y₂ ^ 2 := by
    rw [(equation_curve x y₁).mp h₁.1, (equation_curve x y₂).mp h₂.1]
  refine Point.add_of_Y_eq rfl ?_
  rw [negY_curve]
  exact (sq_eq_sq_iff_eq_or_eq_neg.mp hsq).resolve_left hy

lemma chord_add {x₁ y₁ x₂ y₂ l : F} (h₁ : (curve b).Nonsingular x₁ y₁)
    (h₂ : (curve b).Nonsingular x₂ y₂) (hx : x₁ ≠ x₂) (hl : l * (x₂ - x₁) = y₂ - y₁) :
    ∃ h, (Point.some x₁ y₁ h₁ + Point.some x₂ y₂ h₂ : (curve b).Point) =
      .some (l ^ 2 - x₁ - x₂) (l * (x₁ - (l ^ 2 - x₁ - x₂)) - y₁) h := by
  have hs : (curve b).slope x₁ x₂ y₁ y₂ = l := by
    rw [slope_of_X_ne hx, div_eq_iff (sub_ne_zero.mpr hx)]
    linear_combination hl
  have hX : (curve b).addX x₁ x₂ l = l ^ 2 - x₁ - x₂ := by
    simp [addX, curve]
  have hY : (curve b).addY x₁ x₂ y₁ l = l * (x₁ - (l ^ 2 - x₁ - x₂)) - y₁ := by
    rw [addY, negAddY, negY_curve, hX]
    ring
  have e := @Point.add_of_X_ne F _ (curve b) _ _ _ _ _ h₁ h₂ hx
  simp only [hs, hX, hY] at e
  exact ⟨_, e⟩

lemma tangent_add (h2 : (2 : F) ≠ 0) {x y l : F} (h : (curve b).Nonsingular x y) (hy : y ≠ 0)
    (hl : l * (2 * y) = 3 * x ^ 2) :
    ∃ h', (Point.some x y h + Point.some x y h : (curve b).Point) =
      .some (l ^ 2 - 2 * x) (l * (x - (l ^ 2 - 2 * x)) - y) h' := by
  have hne : y ≠ (curve b).negY x y := by
    rw [negY_curve, ne_eq, eq_neg_iff_add_eq_zero, ← two_mul]
    exact mul_ne_zero h2 hy
  have hs : (curve b).slope x x y y = l := by
    rw [slope_of_Y_ne rfl hne, div_eq_iff (sub_ne_zero.mpr hne), negY_curve]
    simp only [curve]
    linear_combination -hl
  have hX : (curve b).addX x x l = l ^ 2 - 2 * x := by
    simp only [addX, curve]
    ring
  have hY : (curve b).addY x x y l = l * (x - (l ^ 2 - 2 * x)) - y := by
    rw [addY, negAddY, negY_curve, hX]
    ring
  have e := @Point.add_self_of_Y_ne F _ (curve b) _ _ _ h hne
  simp only [hs, hX, hY] at e
  exact ⟨_, e⟩

/-! ### Triples -/

/-- The triple `(x, y, z)` stands for the point `P`. -/
def Represents (x y z : F) (P : (curve b).Point) : Prop :=
  z = 0 ∧ P = 0 ∨ z ≠ 0 ∧ ∃ u v h, P = .some u v h ∧ x = u * z ^ 2 ∧ y = v * z ^ 3

namespace Represents

variable {x y z : F} {P : (curve b).Point}

omit [DecidableEq F] in
lemma infinity (x y : F) : Represents x y 0 (0 : (curve b).Point) := .inl ⟨rfl, rfl⟩

omit [DecidableEq F] in
lemma affine {u v : F} (h : (curve b).Nonsingular u v) :
    Represents u v 1 (.some u v h : (curve b).Point) :=
  .inr ⟨one_ne_zero, u, v, h, rfl, by ring, by ring⟩

omit [DecidableEq F] in
lemma eq_zero_iff (h : Represents x y z P) : P = 0 ↔ z = 0 := by
  rcases h with ⟨hz, rfl⟩ | ⟨hz, u, v, h, rfl, -, -⟩
  · exact iff_of_true rfl hz
  · exact iff_of_false (Point.some_ne_zero h) hz

end Represents

end Secp256k1
