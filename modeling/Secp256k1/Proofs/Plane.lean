import Mathlib.Algebra.Field.ZMod
import Mathlib.Tactic.FieldSimp
import Secp256k1.Proofs.Curve

/-!
Chords and tangents on the whole plane.

The rules for adding two points along a chord, and for doubling one along a tangent, do not look
at the equation of the curve, so they are rules for any two points of the plane. On the whole
plane they make no group. But each point lies on one curve `y² = x³ + b`, and its multiples stay
there; on the points of that curve that are not singular the rules are those of its group. The
one point left over is the origin, the singular point of `y² = x³`, and the origin and infinity
make a group of two elements. So the multiples of any point add up as multiples do.
-/

namespace Secp256k1

/-- A point of the plane, or infinity. -/
inductive Position (F : Type) where
  | infinity
  | finite (x y : F)

namespace Position

variable {F : Type} [Field F] [DecidableEq F] {b : F}

/-! ### The rules -/

/-- The opposite of where the line of slope `l` through `(x, y)` leads to. The line passes the
abscissas `x` and `x'` before. -/
def along (l x y x' : F) : Position F :=
  finite (l ^ 2 - x - x') (l * (x - (l ^ 2 - x - x')) - y)

/-- `P + P`, along the tangent. A point with `y = 0` is its own opposite. -/
def double : Position F → Position F
  | infinity => infinity
  | finite x y => if y = 0 then infinity else along (3 * x ^ 2 / (2 * y)) x y x

/-- `P + Q`, along the chord. -/
def add : Position F → Position F → Position F
  | infinity, Q => Q
  | P, infinity => P
  | finite x₁ y₁, finite x₂ y₂ =>
    if x₁ = x₂ then if y₁ = y₂ then (finite x₁ y₁).double else infinity
    else along ((y₂ - y₁) / (x₂ - x₁)) x₁ y₁ x₂

/-- `-P`, the reflection of `P`. -/
def neg : Position F → Position F
  | infinity => infinity
  | finite x y => finite x (-y)

/-- `P + … + P`, so many times. -/
def multiple (P : Position F) : ℕ → Position F
  | 0 => infinity
  | n + 1 => (P.multiple n).add P

@[simp] lemma infinity_add (P : Position F) : infinity.add P = P := by
  cases P <;> rfl

@[simp] lemma add_infinity (P : Position F) : P.add infinity = P := by
  cases P <;> rfl

@[simp] lemma double_infinity : (infinity : Position F).double = infinity := rfl

lemma add_self (P : Position F) : P.add P = P.double := by
  cases P with
  | infinity => rfl
  | finite x y => simp [add]

@[simp] lemma multiple_zero (P : Position F) : P.multiple 0 = infinity := rfl

lemma multiple_succ (P : Position F) (n : ℕ) : P.multiple (n + 1) = (P.multiple n).add P := rfl

@[simp] lemma multiple_one (P : Position F) : P.multiple 1 = P := infinity_add P

@[simp] lemma infinity_multiple (n : ℕ) : (infinity : Position F).multiple n = infinity := by
  induction n with
  | zero => rfl
  | succ n ih => rw [multiple_succ, ih, infinity_add]

/-! ### Triples -/

/-- The position `(x / z², y / z³)` of a triple `(x, y, z)`, and infinity if `z` is zero. -/
def ofTriple (x y z : F) : Position F := if z = 0 then infinity else finite (x / z ^ 2) (y / z ^ 3)

@[simp] lemma ofTriple_zero (x y : F) : ofTriple x y 0 = infinity := if_pos rfl

@[simp] lemma ofTriple_one (x y : F) : ofTriple x y 1 = finite x y := by simp [ofTriple]

lemma ofTriple_of_ne_zero {x y z : F} (hz : z ≠ 0) :
    ofTriple x y z = finite (x / z ^ 2) (y / z ^ 3) := if_neg hz

lemma ofTriple_eq_infinity_iff (x y z : F) : ofTriple x y z = infinity ↔ z = 0 := by
  by_cases hz : z = 0
  · simp [hz]
  · simp [ofTriple_of_ne_zero hz, hz]

lemma ofTriple_neg (x y z : F) : ofTriple x (-y) z = (ofTriple x y z).neg := by
  by_cases hz : z = 0
  · simp [hz, neg]
  · rw [ofTriple_of_ne_zero hz, ofTriple_of_ne_zero hz, neg, neg_div]

/-- A common scale of the coordinates does not show. -/
lemma ofTriple_scale (x y z : F) {k : F} (hk : k ≠ 0) :
    ofTriple (x * k ^ 2) (y * k ^ 3) (z * k) = ofTriple x y z := by
  by_cases hz : z = 0
  · simp [hz]
  · rw [ofTriple_of_ne_zero (mul_ne_zero hz hk), ofTriple_of_ne_zero hz]
    congr 1
    · field_simp
    · field_simp

/-- **Doubling without a division** is right for every triple. -/
theorem double_ofTriple (h2 : (2 : F) ≠ 0) (x y z : F) :
    ofTriple ((3 * x ^ 2) ^ 2 - 8 * x * y ^ 2)
      (3 * x ^ 2 * (12 * x * y ^ 2 - (3 * x ^ 2) ^ 2) - 8 * y ^ 4) (2 * y * z) =
        (ofTriple x y z).double := by
  by_cases hz : z = 0
  · simp [hz]
  by_cases hy : y = 0
  · simp [hy, ofTriple_of_ne_zero hz, double]
  have hyz : y / z ^ 3 ≠ 0 := div_ne_zero hy (pow_ne_zero 3 hz)
  rw [ofTriple_of_ne_zero hz, double, if_neg hyz, along,
    ofTriple_of_ne_zero (mul_ne_zero (mul_ne_zero h2 hy) hz)]
  congr 1
  · field_simp
    ring
  · field_simp
    ring

section Chord

variable {x₁ y₁ z₁ x₂ y₂ z₂ h r : F} (hz₁ : z₁ ≠ 0) (hz₂ : z₂ ≠ 0)
  (eh : h = x₂ * z₁ ^ 2 - x₁ * z₂ ^ 2) (er : r = y₂ * z₁ ^ 3 - y₁ * z₂ ^ 3)
include hz₁ hz₂ eh er

/-- Triples whose chord degenerates have one position. -/
lemma ofTriple_eq_of_chord (hh : h = 0) (hr : r = 0) : ofTriple x₁ y₁ z₁ = ofTriple x₂ y₂ z₂ := by
  have hx : x₂ * z₁ ^ 2 = x₁ * z₂ ^ 2 := sub_eq_zero.mp (eh.symm.trans hh)
  have hy : y₂ * z₁ ^ 3 = y₁ * z₂ ^ 3 := sub_eq_zero.mp (er.symm.trans hr)
  rw [← ofTriple_scale x₁ y₁ z₁ hz₂, ← ofTriple_scale x₂ y₂ z₂ hz₁, hx, hy, mul_comm z₁]

/-- **Adding without a division** is right for all finite triples whose chord does not
degenerate. Opposite ones give a triple with `z = 0`. -/
theorem add_ofTriple (hne : h ≠ 0 ∨ r ≠ 0) :
    ofTriple (r ^ 2 - h ^ 3 - 2 * (x₁ * z₂ ^ 2 * h ^ 2))
      (r * (3 * (x₁ * z₂ ^ 2 * h ^ 2) - r ^ 2 + h ^ 3) - y₁ * z₂ ^ 3 * h ^ 3) (z₁ * z₂ * h) =
        (ofTriple x₁ y₁ z₁).add (ofTriple x₂ y₂ z₂) := by
  have hdx : x₂ / z₂ ^ 2 - x₁ / z₁ ^ 2 = h / (z₁ * z₂) ^ 2 := by
    rw [eh]
    field_simp
  have hdy : y₂ / z₂ ^ 3 - y₁ / z₁ ^ 3 = r / (z₁ * z₂) ^ 3 := by
    rw [er]
    field_simp
  have hz : z₁ * z₂ ≠ 0 := mul_ne_zero hz₁ hz₂
  rw [ofTriple_of_ne_zero hz₁, ofTriple_of_ne_zero hz₂, add]
  by_cases hh : h = 0
  · have hx : x₁ / z₁ ^ 2 = x₂ / z₂ ^ 2 := by
      rw [hh, zero_div, sub_eq_zero] at hdx
      exact hdx.symm
    have hy : y₁ / z₁ ^ 3 ≠ y₂ / z₂ ^ 3 := by
      intro hy
      rw [hy, sub_self, eq_comm, div_eq_zero_iff, or_iff_left (pow_ne_zero 3 hz)] at hdy
      exact hne.elim (fun h => h hh) fun h => h hdy
    rw [if_pos hx, if_neg hy, hh, mul_zero, ofTriple_zero]
  · have hx : x₁ / z₁ ^ 2 ≠ x₂ / z₂ ^ 2 := by
      rw [ne_comm, ← sub_ne_zero, hdx]
      exact div_ne_zero hh (pow_ne_zero 2 hz)
    -- the second operand enters by its distances from the first one only
    have hx₂ : x₂ / z₂ ^ 2 = x₁ / z₁ ^ 2 + h / (z₁ * z₂) ^ 2 := by
      rw [← hdx]
      ring
    rw [if_neg hx, hdx, hdy, along, hx₂, ofTriple_of_ne_zero (mul_ne_zero hz hh)]
    congr 1
    · field_simp
      ring
    · field_simp
      ring

end Chord

/-! ### Groups in the plane -/

/-- A group of positions, whose sums are those along chords and tangents. -/
structure Chart (F G : Type) [Field F] [DecidableEq F] [AddCommGroup G] where
  position : G → Position F
  position_zero : position 0 = infinity
  position_add : ∀ g h, position (g + h) = (position g).add (position h)

lemma Chart.position_nsmul {G : Type} [AddCommGroup G] (c : Chart F G) (g : G) (n : ℕ) :
    c.position (n • g) = (c.position g).multiple n := by
  induction n with
  | zero => rw [zero_nsmul, c.position_zero, multiple_zero]
  | succ n ih => rw [succ_nsmul, c.position_add, ih, multiple_succ]

/-- The position of an element of the group of a curve. -/
def ofGroup : (curve b).Point → Position F
  | .zero => infinity
  | .some x y _ => finite x y

omit [DecidableEq F] in
@[simp] lemma ofGroup_zero : ofGroup (0 : (curve b).Point) = infinity := rfl

omit [DecidableEq F] in
@[simp] lemma ofGroup_some {x y : F} (h : (curve b).Nonsingular x y) :
    ofGroup (.some x y h : (curve b).Point) = finite x y := rfl

omit [DecidableEq F] in
lemma ofGroup_injective : Function.Injective (ofGroup : (curve b).Point → Position F) := by
  rintro (_ | ⟨x₁, y₁, h₁⟩) (_ | ⟨x₂, y₂, h₂⟩) h
  · rfl
  · cases h
  · cases h
  · obtain ⟨rfl, rfl⟩ := finite.inj h
    rfl

omit [DecidableEq F] in
open WeierstrassCurve.Affine in
lemma ofGroup_neg (P : (curve b).Point) : ofGroup (-P) = (ofGroup P).neg := by
  rcases P with _ | ⟨x, y, h⟩
  · rfl
  · rw [Point.neg_some, ofGroup_some, ofGroup_some, neg, negY_curve]

open WeierstrassCurve.Affine in
/-- **The sums of the group are those of the plane.** -/
theorem ofGroup_add (h2 : (2 : F) ≠ 0) (P Q : (curve b).Point) :
    ofGroup (P + Q) = (ofGroup P).add (ofGroup Q) := by
  rcases P with _ | ⟨x₁, y₁, h₁⟩
  · exact (congrArg ofGroup (zero_add Q)).trans (infinity_add _).symm
  rcases Q with _ | ⟨x₂, y₂, h₂⟩
  · exact (congrArg ofGroup (add_zero _)).trans (add_infinity _).symm
  simp only [ofGroup_some, add]
  by_cases hx : x₁ = x₂
  · subst hx
    by_cases hy : y₁ = y₂
    · subst hy
      rw [if_pos rfl, if_pos rfl, double]
      by_cases hy0 : y₁ = 0
      · rw [if_pos hy0, Point.add_self_of_Y_eq (by rw [negY_curve, hy0, neg_zero])]
        rfl
      · have hl := div_mul_cancel₀ (3 * x₁ ^ 2) (mul_ne_zero h2 hy0)
        obtain ⟨h, e⟩ := tangent_add h2 h₁ hy0 hl
        rw [if_neg hy0, e, ofGroup_some, along, sub_sub, ← two_mul x₁]
    · rw [if_pos rfl, if_neg hy, add_eq_zero_of_x_eq hy]
      rfl
  · have hl := div_mul_cancel₀ (y₂ - y₁) (sub_ne_zero.mpr (Ne.symm hx))
    obtain ⟨h, e⟩ := chord_add h₁ h₂ hx hl
    rw [if_neg hx, e, ofGroup_some, along]

omit [DecidableEq F] in
/-- A triple represents the element with its position. -/
lemma represents_iff [DecidableEq F] {x y z : F} {P : (curve b).Point} :
    Represents x y z P ↔ ofTriple x y z = ofGroup P := by
  constructor
  · rintro (⟨rfl, rfl⟩ | ⟨hz, u, v, h, rfl, rfl, rfl⟩)
    · simp
    · simp [ofTriple_of_ne_zero, hz]
  · intro h
    by_cases hz : z = 0
    · subst hz
      rw [ofTriple_zero] at h
      rw [← ofGroup_injective (show ofGroup 0 = ofGroup P from h)]
      exact Represents.infinity _ _
    · rcases P with _ | ⟨u, v, hn⟩
      · rw [(ofTriple_eq_infinity_iff x y z).mp h] at hz
        exact absurd rfl hz
      · rw [ofTriple_of_ne_zero hz, ofGroup_some] at h
        obtain ⟨rfl, rfl⟩ := finite.inj h
        exact .inr ⟨hz, _, _, hn, rfl, by field_simp, by field_simp⟩

/-- The group of a curve, without the singular point if it has one. -/
def curveChart (h2 : (2 : F) ≠ 0) (b : F) : Chart F (curve b).Point where
  position := ofGroup
  position_zero := rfl
  position_add := ofGroup_add h2

/-- The origin and infinity. -/
def originChart (F : Type) [Field F] [DecidableEq F] : Chart F (ZMod 2) where
  position g := if g = 0 then infinity else finite 0 0
  position_zero := rfl
  position_add g h := by
    have hcases : ∀ g : ZMod 2, g = 0 ∨ g = 1 := by decide
    have hsum : (1 + 1 : ZMod 2) = 0 := rfl
    rcases hcases g with rfl | rfl <;> rcases hcases h with rfl | rfl <;> simp [add, double, hsum]

section Multiples

variable (h2 : (2 : F) ≠ 0) (h3 : (3 : F) ≠ 0)
include h2 h3

/-- Every position belongs to a group. -/
theorem exists_chart (P : Position F) :
    ∃ (G : Type) (_ : AddCommGroup G) (c : Chart F G) (g : G), c.position g = P := by
  cases P with
  | infinity => exact ⟨_, _, originChart F, 0, rfl⟩
  | finite x y =>
    by_cases h : x ≠ 0 ∨ y ≠ 0
    · have hn : (curve (y ^ 2 - x ^ 3)).Nonsingular x y := by
        rw [nonsingular_curve h2 h3]
        exact ⟨by ring, h⟩
      exact ⟨_, _, curveChart h2 (y ^ 2 - x ^ 3), .some x y hn, rfl⟩
    · obtain ⟨rfl, rfl⟩ : x = 0 ∧ y = 0 := by simpa using h
      exact ⟨_, _, originChart F, 1, rfl⟩

/-- **Multiples of a position add up.** -/
theorem multiple_add (P : Position F) (m n : ℕ) :
    (P.multiple m).add (P.multiple n) = P.multiple (m + n) := by
  obtain ⟨G, _, c, g, rfl⟩ := exists_chart h2 h3 P
  rw [← c.position_nsmul, ← c.position_nsmul, ← c.position_nsmul, ← c.position_add, add_nsmul]

lemma double_multiple (P : Position F) (m : ℕ) : (P.multiple m).double = P.multiple (2 * m) := by
  rw [← add_self, multiple_add h2 h3, two_mul]

end Multiples

end Position

/-! ### Triples of the points of a curve -/

namespace Represents

open Position

variable {F : Type} [Field F] [DecidableEq F] {b : F} (h2 : (2 : F) ≠ 0)
include h2

/-- **Doubling without a division.** A point with `y = 0` doubles to a triple with `z = 0`. -/
theorem double {x y z : F} {P : (curve b).Point} (h : Represents x y z P) :
    Represents ((3 * x ^ 2) ^ 2 - 8 * x * y ^ 2)
      (3 * x ^ 2 * (12 * x * y ^ 2 - (3 * x ^ 2) ^ 2) - 8 * y ^ 4) (2 * y * z) (P + P) := by
  rw [represents_iff] at h ⊢
  rw [double_ofTriple h2, h, ← add_self, ofGroup_add h2]

/-- **Adding without a division**, for finite operands that are not equal. Opposite operands
give a triple with `z = 0`. -/
theorem chord {x₁ y₁ z₁ x₂ y₂ z₂ h r : F} {P Q : (curve b).Point} (hP : Represents x₁ y₁ z₁ P)
    (hQ : Represents x₂ y₂ z₂ Q) (hz₁ : z₁ ≠ 0) (hz₂ : z₂ ≠ 0)
    (eh : h = x₂ * z₁ ^ 2 - x₁ * z₂ ^ 2) (er : r = y₂ * z₁ ^ 3 - y₁ * z₂ ^ 3)
    (hne : h ≠ 0 ∨ r ≠ 0) :
    Represents (r ^ 2 - h ^ 3 - 2 * (x₁ * z₂ ^ 2 * h ^ 2))
      (r * (3 * (x₁ * z₂ ^ 2 * h ^ 2) - r ^ 2 + h ^ 3) - y₁ * z₂ ^ 3 * h ^ 3) (z₁ * z₂ * h)
      (P + Q) := by
  rw [represents_iff] at hP hQ ⊢
  rw [add_ofTriple hz₁ hz₂ eh er hne, hP, hQ, ofGroup_add h2]

end Represents

end Secp256k1
