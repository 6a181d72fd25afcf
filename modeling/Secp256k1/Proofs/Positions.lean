import Secp256k1.Point.Group
import Secp256k1.Proofs.Field
import Secp256k1.Proofs.Plane

/-!
Points as positions in the plane.

A well-formed point has a position, on the curve or off it, and two points are equal exactly if
they have one position. Sums and doubles of well-formed points never fail, and lead to the
positions that chords and tangents lead to: what is inverted on the way is never zero.
-/

namespace Secp256k1

namespace Point

variable {p q : Point} {x y z : FieldElement}

/-! ### Well-formed points -/

lemma isInfinity_iff (p : Point) : p.isInfinity = true ↔ p.form = .infinity := by
  simp [isInfinity]

lemma wellFormed_infinity : infinity.WellFormed where
  x_canonical := FieldElement.isCanonical_zero
  y_canonical := FieldElement.isCanonical_zero
  z_canonical := FieldElement.isCanonical_zero
  infinity _ := rfl
  fingerprint := by decide +kernel
  affine h := by cases h
  jacobian h := by cases h

lemma wellFormed_ofAffine (hx : x.IsCanonical) (hy : y.IsCanonical) :
    (ofAffine x y).WellFormed where
  x_canonical := hx
  y_canonical := hy
  z_canonical := FieldElement.isCanonical_one
  infinity h := by cases h
  fingerprint := rfl
  affine _ := rfl
  jacobian h := by cases h

lemma isZero_eq_false_iff (hz : z.IsCanonical) : z.isZero = false ↔ z.toZMod ≠ 0 := by
  rw [← Bool.not_eq_true, ne_eq, FieldElement.isZero_iff hz]

lemma wellFormed_ofJacobian (hx : x.IsCanonical) (hy : y.IsCanonical) (hz : z.IsCanonical) :
    (ofJacobian x y z).WellFormed := by
  rw [ofJacobian]
  split
  · exact wellFormed_infinity
  · next hz0 =>
    exact
      { x_canonical := hx
        y_canonical := hy
        z_canonical := hz
        infinity := fun h => by cases h
        fingerprint := rfl
        affine := fun h => by cases h
        jacobian := fun _ e => hz0 (by rw [show z = .zero from e]; rfl) }

lemma WellFormed.eq_ofAffine (h : p.WellFormed) (hf : p.form = .affine) :
    p = ofAffine p.x p.y := by
  rcases p with ⟨x, y, z, form, f⟩
  obtain rfl : form = .affine := hf
  obtain rfl : z = .one := h.affine rfl
  obtain rfl : f = fingerprintOf x y := h.fingerprint
  rfl

/-- There are three ways to make a point. -/
lemma WellFormed.cases (h : p.WellFormed) :
    p = .infinity ∨ p = ofAffine p.x p.y ∨
      p = ⟨p.x, p.y, p.z, .jacobian, fingerprintOf p.x p.y⟩ ∧ p.z.toZMod ≠ 0 := by
  rcases hf : p.form with _ | _ | _
  · exact .inl (h.infinity hf)
  · exact .inr (.inl (h.eq_ofAffine hf))
  · refine .inr (.inr ⟨?_, ?_⟩)
    · rw [← h.fingerprint, ← hf]
    · have hz := h.jacobian hf
      rwa [ne_eq, ← FieldElement.toZMod_inj h.z_canonical FieldElement.isCanonical_zero,
        FieldElement.toZMod_zero] at hz

/-! ### Affine form -/

@[simp] lemma toAffine_infinity : infinity.toAffine = infinity := rfl

@[simp] lemma toAffine_ofAffine (x y : FieldElement) : (ofAffine x y).toAffine = ofAffine x y := rfl

lemma toAffine_of_jacobian (hf : p.form = .jacobian) (hz : p.z.isZero = false) :
    p.toAffine = ofAffine (p.x * p.z.invertOrZero.square)
      (p.y * (p.z.invertOrZero.square * p.z.invertOrZero)) := by
  rw [toAffine, hf]
  simp only [hz, Bool.false_eq_true, if_false]

/-- The affine form of a finite point is affine. -/
lemma WellFormed.toAffine_cases (h : p.WellFormed) :
    p = .infinity ∨ p.isInfinity = false ∧
      ∃ x y, x.IsCanonical ∧ y.IsCanonical ∧ p.toAffine = ofAffine x y := by
  rcases h.cases with e | e | ⟨e, hz⟩
  · exact .inl e
  · refine .inr ⟨by rw [e]; rfl, _, _, h.x_canonical, h.y_canonical, ?_⟩
    conv_lhs => rw [e]
    rfl
  · have hf : p.form = .jacobian := by rw [e]
    refine .inr ⟨by simp [isInfinity, hf], _, _, ?_, ?_, toAffine_of_jacobian hf
      ((isZero_eq_false_iff h.z_canonical).mpr hz)⟩ <;> exact FieldElement.isCanonical_mul _ _

lemma WellFormed.toAffine (h : p.WellFormed) : p.toAffine.WellFormed := by
  rcases h.toAffine_cases with rfl | ⟨-, x, y, hx, hy, e⟩
  · exact wellFormed_infinity
  · rw [e]
    exact wellFormed_ofAffine hx hy

lemma WellFormed.isInfinity_toAffine (h : p.WellFormed) :
    p.toAffine.isInfinity = p.isInfinity := by
  rcases h.toAffine_cases with rfl | ⟨hi, x, y, hx, hy, e⟩
  · rfl
  · rw [e, hi]
    rfl

/-! ### Positions -/

/-- The position that the stored coordinates stand for. -/
def position (p : Point) : Position Fp := .ofTriple p.x.toZMod p.y.toZMod p.z.toZMod

@[simp] lemma position_infinity : infinity.position = .infinity := by
  simp [position, infinity]

@[simp] lemma position_ofAffine (x y : FieldElement) :
    (ofAffine x y).position = .finite x.toZMod y.toZMod := by
  simp [position, ofAffine]

lemma position_ofJacobian (x y : FieldElement) (hz : z.IsCanonical) :
    (ofJacobian x y z).position = .ofTriple x.toZMod y.toZMod z.toZMod := by
  rw [ofJacobian]
  split
  · next h0 =>
    rw [(FieldElement.isZero_iff hz).mp h0, Position.ofTriple_zero, position_infinity]
  · rfl

/-- The affine form is at the same place. -/
lemma WellFormed.position_toAffine (h : p.WellFormed) : p.toAffine.position = p.position := by
  rcases h.cases with e | e | ⟨e, hz⟩
  · rw [e, toAffine_infinity]
  · rw [e, toAffine_ofAffine]
  · have hf : p.form = .jacobian := by rw [e]
    rw [toAffine_of_jacobian hf ((isZero_eq_false_iff h.z_canonical).mpr hz), position_ofAffine,
      position, Position.ofTriple_of_ne_zero hz]
    refine congrArg₂ Position.finite ?_ ?_
    · simp [div_eq_mul_inv]
    · simp [div_eq_mul_inv, pow_succ, mul_assoc]

/-- A finite point is where its affine form says. -/
lemma WellFormed.position_cases (h : p.WellFormed) :
    p = .infinity ∨ p.isInfinity = false ∧ ∃ x y, x.IsCanonical ∧ y.IsCanonical ∧
      p.toAffine = ofAffine x y ∧ p.position = .finite x.toZMod y.toZMod := by
  rcases h.toAffine_cases with rfl | ⟨hi, x, y, hx, hy, e⟩
  · exact .inl rfl
  · refine .inr ⟨hi, x, y, hx, hy, e, ?_⟩
    rw [← h.position_toAffine, e, position_ofAffine]

lemma WellFormed.isInfinity_iff_position (h : p.WellFormed) :
    p.isInfinity = true ↔ p.position = .infinity := by
  rcases h.position_cases with rfl | ⟨hi, x, y, -, -, -, hp⟩
  · exact iff_of_true rfl position_infinity
  · rw [hi, hp]
    exact iff_of_false Bool.false_ne_true (by simp)

/-- **Points are equal exactly if they have one position.** -/
theorem equals_iff_position (hp : p.WellFormed) (hq : q.WellFormed) :
    p.equals q = true ↔ p.position = q.position := by
  rcases hp.position_cases with rfl | ⟨hpi, x₁, y₁, hx₁, hy₁, e₁, hp₁⟩
  · rcases hq.position_cases with rfl | ⟨hqi, x₂, y₂, -, -, -, hp₂⟩
    · exact iff_of_true rfl rfl
    · simp [equals, hqi, hp₂, show infinity.isInfinity = true from rfl]
  · rcases hq.position_cases with rfl | ⟨hqi, x₂, y₂, hx₂, hy₂, e₂, hp₂⟩
    · simp [equals, hpi, hp₁, show infinity.isInfinity = true from rfl]
    · simp [equals, ofAffine, FieldElement.toZMod_inj, *]

/-! ### Opposite points -/

lemma neg_ofAffine (x y : FieldElement) : (ofAffine x y).neg = ofAffine x (-y) := rfl

lemma neg_of_jacobian (h : p.form = .jacobian) : p.neg = ofJacobian p.x (-p.y) p.z := by
  rw [Point.neg, h]

lemma WellFormed.neg (h : p.WellFormed) : p.neg.WellFormed := by
  have hy := FieldElement.isCanonical_neg h.y_canonical
  rcases h.cases with e | e | ⟨e, -⟩
  · rw [e]
    exact wellFormed_infinity
  · rw [e, neg_ofAffine]
    exact wellFormed_ofAffine h.x_canonical hy
  · rw [neg_of_jacobian (by rw [e])]
    exact wellFormed_ofJacobian h.x_canonical hy h.z_canonical

lemma WellFormed.position_neg (h : p.WellFormed) : p.neg.position = p.position.neg := by
  have hy := FieldElement.toZMod_neg h.y_canonical
  rcases h.cases with e | e | ⟨e, -⟩
  · rw [e, position_infinity]
    exact position_infinity
  · rw [e, neg_ofAffine, position_ofAffine, position_ofAffine, hy, Position.neg]
  · rw [neg_of_jacobian (by rw [e]), position_ofJacobian _ _ h.z_canonical, hy,
      Position.ofTriple_neg, position]

/-! ### Sums and doubles -/

/-- Where the line of slope `l` through `(x₁, y₁)` leads to, with the abscissa `x` given. -/
lemma opposite_spec {l x₁ y₁ : FieldElement} {x₂ : Fp} (hx₁ : x₁.IsCanonical)
    (hy₁ : y₁.IsCanonical) (hx : x.IsCanonical)
    (h : x.toZMod = l.toZMod ^ 2 - x₁.toZMod - x₂) :
    (opposite l (ofAffine x₁ y₁) x).WellFormed ∧
      (opposite l (ofAffine x₁ y₁) x).position = .along l.toZMod x₁.toZMod y₁.toZMod x₂ := by
  have hm := FieldElement.isCanonical_mul l (x₁ - x)
  refine ⟨wellFormed_ofAffine hx (FieldElement.isCanonical_sub hm hy₁), ?_⟩
  have hy : (l * (x₁ - x) - y₁).toZMod = l.toZMod * (x₁.toZMod - x.toZMod) - y₁.toZMod := by
    rw [FieldElement.toZMod_sub hm hy₁, FieldElement.toZMod_mul, FieldElement.toZMod_sub hx₁ hx]
  rw [Position.along, ← h, ← hy]
  exact position_ofAffine _ _

/-- The tangent at a point with `y ≠ 0` has a slope, and leads to the double. -/
lemma exists_tangent (hx : x.IsCanonical) (hy : y.IsCanonical) (hy0 : y.toZMod ≠ 0) :
    ∃ i l, y.double.invert = .ok i ∧ l = (x.square + x.square + x.square) * i ∧
      (opposite l (ofAffine x y) (l.square - x.double)).WellFormed ∧
      (opposite l (ofAffine x y) (l.square - x.double)).position =
        .along (3 * x.toZMod ^ 2 / (2 * y.toZMod)) x.toZMod y.toZMod x.toZMod := by
  have h2 : y.double.toZMod ≠ 0 := by
    rw [FieldElement.toZMod_double hy]
    exact mul_ne_zero two_ne_zero_Fp hy0
  obtain ⟨i, hi, -, hiz⟩ := FieldElement.exists_invert_eq_ok h2
  obtain ⟨l, hl⟩ : ∃ l, l = (x.square + x.square + x.square) * i := ⟨_, rfl⟩
  have hslope : l.toZMod = 3 * x.toZMod ^ 2 / (2 * y.toZMod) := by
    have hx2 := FieldElement.isCanonical_square x
    rw [hl, FieldElement.toZMod_mul, hiz, FieldElement.toZMod_double hy, ← div_eq_mul_inv,
      FieldElement.toZMod_add (FieldElement.isCanonical_add hx2 hx2) hx2,
      FieldElement.toZMod_add hx2 hx2, FieldElement.toZMod_square]
    ring
  have hl2 := FieldElement.isCanonical_square l
  have hxd := FieldElement.isCanonical_double hx
  have hthird : (l.square - x.double).toZMod = l.toZMod ^ 2 - x.toZMod - x.toZMod := by
    rw [FieldElement.toZMod_sub hl2 hxd, FieldElement.toZMod_square, FieldElement.toZMod_double hx]
    ring
  have h := opposite_spec hx hy (FieldElement.isCanonical_sub hl2 hxd) hthird
  rw [hslope] at h
  exact ⟨i, l, hi, hl, h⟩

/-- The chord through points with different abscissas has a slope, and leads to the sum. -/
lemma exists_chord {x₁ y₁ x₂ y₂ : FieldElement} (hx₁ : x₁.IsCanonical) (hy₁ : y₁.IsCanonical)
    (hx₂ : x₂.IsCanonical) (hy₂ : y₂.IsCanonical) (hx : x₁.toZMod ≠ x₂.toZMod) :
    ∃ i l, (x₂ - x₁).invert = .ok i ∧ l = (y₂ - y₁) * i ∧
      (opposite l (ofAffine x₁ y₁) (l.square - x₁ - x₂)).WellFormed ∧
      (opposite l (ofAffine x₁ y₁) (l.square - x₁ - x₂)).position =
        .along ((y₂.toZMod - y₁.toZMod) / (x₂.toZMod - x₁.toZMod)) x₁.toZMod y₁.toZMod
          x₂.toZMod := by
  have hd : (x₂ - x₁).toZMod ≠ 0 := by
    rw [FieldElement.toZMod_sub hx₂ hx₁]
    exact sub_ne_zero.mpr (Ne.symm hx)
  obtain ⟨i, hi, -, hiz⟩ := FieldElement.exists_invert_eq_ok hd
  obtain ⟨l, hl⟩ : ∃ l, l = (y₂ - y₁) * i := ⟨_, rfl⟩
  have hslope : l.toZMod = (y₂.toZMod - y₁.toZMod) / (x₂.toZMod - x₁.toZMod) := by
    rw [hl, FieldElement.toZMod_mul, hiz, FieldElement.toZMod_sub hy₂ hy₁,
      FieldElement.toZMod_sub hx₂ hx₁, div_eq_mul_inv]
  have hl2 := FieldElement.isCanonical_square l
  have hl3 := FieldElement.isCanonical_sub hl2 hx₁
  have hthird : (l.square - x₁ - x₂).toZMod = l.toZMod ^ 2 - x₁.toZMod - x₂.toZMod := by
    rw [FieldElement.toZMod_sub hl3 hx₂, FieldElement.toZMod_sub hl2 hx₁,
      FieldElement.toZMod_square]
  have h := opposite_spec hx₁ hy₁ (FieldElement.isCanonical_sub hl3 hx₂) hthird
  rw [hslope] at h
  exact ⟨i, l, hi, hl, h⟩

/-- **Doubling never fails**, on the curve or off it, and follows the tangent. -/
theorem WellFormed.double (h : p.WellFormed) :
    ∃ r, p.double = .ok r ∧ r.WellFormed ∧ r.position = p.position.double := by
  rcases h.position_cases with rfl | ⟨hi, x, y, hx, hy, e, hp⟩
  · exact ⟨.infinity, rfl, wellFormed_infinity, by simp⟩
  rw [hp, Position.double]
  by_cases hy0 : y.toZMod = 0
  · have hz : y.isZero = true := (FieldElement.isZero_iff hy).mpr hy0
    refine ⟨.infinity, ?_, wellFormed_infinity, by simp [hy0]⟩
    simp [Point.double, hi, e, ofAffine, hz, pure, Except.pure]
  · have hz : y.isZero = false := (isZero_eq_false_iff hy).mpr hy0
    obtain ⟨i, l, hinv, hl, hw, hpos⟩ := exists_tangent hx hy hy0
    refine ⟨_, ?_, hw, ?_⟩
    · rw [Point.double, hi, e]
      simp [ofAffine, hz, hinv, hl, bind, Except.bind, pure, Except.pure]
    · rw [hpos, if_neg hy0]

/-- **Adding never fails**, on the curve or off it, and follows the chord. -/
theorem WellFormed.add (hp : p.WellFormed) (hq : q.WellFormed) :
    ∃ r, p.add q = .ok r ∧ r.WellFormed ∧ r.position = p.position.add q.position := by
  rcases hp.position_cases with rfl | ⟨hpi, x₁, y₁, hx₁, hy₁, e₁, hp₁⟩
  · refine ⟨q.toAffine, rfl, hq.toAffine, ?_⟩
    rw [position_infinity, Position.infinity_add, hq.position_toAffine]
  rcases hq.position_cases with rfl | ⟨hqi, x₂, y₂, hx₂, hy₂, e₂, hp₂⟩
  · refine ⟨p.toAffine, ?_, hp.toAffine, ?_⟩
    · rw [Point.add, hpi]
      rfl
    · rw [position_infinity, Position.add_infinity, hp.position_toAffine]
  have hadd : p.add q =
      if x₁ = x₂ then if y₁ = y₂ then (ofAffine x₁ y₁).double else .ok Point.infinity
      else (x₂ - x₁).invert.map fun i => opposite ((y₂ - y₁) * i) (ofAffine x₁ y₁)
        (((y₂ - y₁) * i).square - x₁ - x₂) := by
    rw [Point.add, hpi, hqi, e₁, e₂]
    simp only [ofAffine, beq_iff_eq]
    rfl
  rw [hadd, hp₁, hp₂, Position.add]
  by_cases hx : x₁ = x₂
  · subst hx
    rw [if_pos rfl, if_pos rfl]
    by_cases hy : y₁ = y₂
    · subst hy
      rw [if_pos rfl, if_pos rfl, ← position_ofAffine]
      exact (wellFormed_ofAffine hx₁ hy₁).double
    · rw [if_neg hy, if_neg ((FieldElement.toZMod_inj hy₁ hy₂).not.mpr hy)]
      exact ⟨.infinity, rfl, wellFormed_infinity, position_infinity⟩
  · have hxz : x₁.toZMod ≠ x₂.toZMod := (FieldElement.toZMod_inj hx₁ hx₂).not.mpr hx
    obtain ⟨i, l, hinv, hl, hw, hpos⟩ := exists_chord hx₁ hy₁ hx₂ hy₂ hxz
    rw [if_neg hx, if_neg hxz, hinv, Except.map, ← hl]
    exact ⟨_, rfl, hw, hpos⟩

theorem WellFormed.sub (hp : p.WellFormed) (hq : q.WellFormed) :
    ∃ r, p.sub q = .ok r ∧ r.WellFormed ∧ r.position = p.position.add q.position.neg := by
  rw [← hq.position_neg]
  exact hp.add hq.neg

end Point

end Secp256k1
