import Secp256k1.Point.Jacobian
import Secp256k1.Proofs.Points

/-!
Jacobian triples as positions in the plane.

Nothing is inverted on the way, so that sums and doubles of triples follow chords and tangents by
a computation in the field alone. They do so for all triples, also where no curve is involved:
for equal operands under different scales, for opposite ones, for points with `y = 0` and for
infinity.
-/

namespace Secp256k1.JacobianPoint

/-- The coordinates are canonical. -/
structure IsCanonical (p : JacobianPoint) : Prop where
  x : p.x.IsCanonical
  y : p.y.IsCanonical
  z : p.z.IsCanonical

/-- The position that the coordinates stand for. -/
def position (p : JacobianPoint) : Position Fp := .ofTriple p.x.toZMod p.y.toZMod p.z.toZMod

variable {p q : JacobianPoint}

/-! ### Triples of points -/

lemma isCanonical_infinity : infinity.IsCanonical :=
  ⟨FieldElement.isCanonical_one, FieldElement.isCanonical_one, FieldElement.isCanonical_zero⟩

@[simp] lemma position_infinity : infinity.position = .infinity := by
  simp [position, infinity]

lemma IsCanonical.isInfinity_iff (h : p.IsCanonical) :
    p.isInfinity = true ↔ p.position = .infinity := by
  rw [isInfinity, FieldElement.isZero_iff h.z, position, Position.ofTriple_eq_infinity_iff]

lemma IsCanonical.wellFormed_toPoint (h : p.IsCanonical) : p.toPoint.WellFormed :=
  Point.wellFormed_ofJacobian h.x h.y h.z

lemma IsCanonical.position_toPoint (h : p.IsCanonical) : p.toPoint.position = p.position :=
  Point.position_ofJacobian p.x p.y h.z

/-- The triple of a point is where the point is. -/
lemma ofPoint_spec {p : Point} (h : p.WellFormed) :
    (ofPoint p).IsCanonical ∧ (ofPoint p).position = p.position := by
  have hc : IsCanonical ⟨p.x, p.y, p.z⟩ := ⟨h.x_canonical, h.y_canonical, h.z_canonical⟩
  rcases h.cases with e | e | ⟨e, -⟩
  · rw [e]
    exact ⟨isCanonical_infinity, position_infinity.trans Point.position_infinity.symm⟩
  · have ho : ofPoint p = ⟨p.x, p.y, p.z⟩ := by
      rw [e]
      rfl
    rw [ho]
    exact ⟨hc, rfl⟩
  · have ho : ofPoint p = ⟨p.x, p.y, p.z⟩ := by rw [ofPoint, e]
    rw [ho]
    exact ⟨hc, rfl⟩

/-! ### Coordinates -/

/-- The coordinates of a double. -/
lemma coordinates_double (h : p.IsCanonical) :
    p.double.IsCanonical ∧
      p.double.x.toZMod = (3 * p.x.toZMod ^ 2) ^ 2 - 8 * p.x.toZMod * p.y.toZMod ^ 2 ∧
      p.double.y.toZMod = 3 * p.x.toZMod ^ 2 *
        (12 * p.x.toZMod * p.y.toZMod ^ 2 - (3 * p.x.toZMod ^ 2) ^ 2) - 8 * p.y.toZMod ^ 4 ∧
      p.double.z.toZMod = 2 * p.y.toZMod * p.z.toZMod := by
  have hx := h.x
  obtain ⟨d, hd, hdc, hdz⟩ : ∃ d : FieldElement,
      d = ((p.x + p.y.square).square - p.x.square - p.y.square.square).double ∧ d.IsCanonical ∧
        d.toZMod = 4 * p.x.toZMod * p.y.toZMod ^ 2 := by
    have hc : ((p.x + p.y.square).square - p.x.square - p.y.square.square).IsCanonical := by simp
    refine ⟨_, rfl, FieldElement.isCanonical_double hc, ?_⟩
    simp only [FieldElement.toZMod_double hc]
    simp [hx]
    ring
  obtain ⟨e, he, hec, hez⟩ : ∃ e : FieldElement, e = p.x.square.double + p.x.square ∧
      e.IsCanonical ∧ e.toZMod = 3 * p.x.toZMod ^ 2 := by
    refine ⟨_, rfl, by simp, ?_⟩
    simp
    ring
  obtain ⟨t, ht, htc, htz⟩ : ∃ t : FieldElement, t = e.square - d.double ∧ t.IsCanonical ∧
      t.toZMod = (3 * p.x.toZMod ^ 2) ^ 2 - 8 * p.x.toZMod * p.y.toZMod ^ 2 := by
    refine ⟨_, rfl, by simp [hdc], ?_⟩
    simp [hdc, hdz, hez]
    ring
  have hdouble : p.double =
      ⟨t, e * (d - t) - p.y.square.square.double.double.double, (p.y * p.z).double⟩ := by
    rw [ht, he, hd]
    rfl
  have hc4 : p.y.square.square.double.double.IsCanonical := by simp
  rw [hdouble]
  refine ⟨⟨htc, by simp [hc4], by simp⟩, htz, ?_, ?_⟩
  · simp [hc4, hdc, htc, hdz, hez, htz]
    ring
  · simp
    ring

/-- The differences that decide about a chord. -/
lemma coordinates_chord_differences (p q : JacobianPoint) :
    (chord p q).h.IsCanonical ∧
      (chord p q).h.toZMod = q.x.toZMod * p.z.toZMod ^ 2 - p.x.toZMod * q.z.toZMod ^ 2 ∧
      (chord p q).r.IsCanonical ∧
      (chord p q).r.toZMod = q.y.toZMod * p.z.toZMod ^ 3 - p.y.toZMod * q.z.toZMod ^ 3 := by
  refine ⟨by simp [chord], by simp [chord], by simp [chord], ?_⟩
  simp [chord]
  ring

/-- The coordinates of the sum along a chord. -/
lemma coordinates_chord_sum (p q : JacobianPoint) :
    (chord p q).sum.IsCanonical ∧
      (chord p q).sum.x.toZMod = (chord p q).r.toZMod ^ 2 - (chord p q).h.toZMod ^ 3 -
        2 * (p.x.toZMod * q.z.toZMod ^ 2 * (chord p q).h.toZMod ^ 2) ∧
      (chord p q).sum.y.toZMod =
        (chord p q).r.toZMod * (3 * (p.x.toZMod * q.z.toZMod ^ 2 * (chord p q).h.toZMod ^ 2) -
          (chord p q).r.toZMod ^ 2 + (chord p q).h.toZMod ^ 3) -
          p.y.toZMod * q.z.toZMod ^ 3 * (chord p q).h.toZMod ^ 3 ∧
      (chord p q).sum.z.toZMod = p.z.toZMod * q.z.toZMod * (chord p q).h.toZMod := by
  obtain ⟨h, hh⟩ : ∃ h, h = (chord p q).h := ⟨_, rfl⟩
  obtain ⟨r, hr⟩ : ∃ r, r = (chord p q).r := ⟨_, rfl⟩
  obtain ⟨v, hv, hvc, hvz⟩ : ∃ v, v = p.x * q.z.square * h.square ∧ v.IsCanonical ∧
      v.toZMod = p.x.toZMod * q.z.toZMod ^ 2 * h.toZMod ^ 2 :=
    ⟨_, rfl, by simp, by simp⟩
  obtain ⟨t, ht, htc, htz⟩ : ∃ t : FieldElement, t = r.square - h.square * h - v.double ∧
      t.IsCanonical ∧ t.toZMod = r.toZMod ^ 2 - h.toZMod ^ 3 - 2 * v.toZMod :=
    ⟨_, rfl, by simp [hvc], by simp [hvc, pow_succ]⟩
  have hsum : (chord p q).sum =
      ⟨t, r * (v - t) - p.y * q.z.square * q.z * (h.square * h), p.z * q.z * h⟩ := by
    rw [ht, hv, hh, hr]
    rfl
  rw [hsum, ← hh, ← hr, ← hvz]
  refine ⟨⟨htc, by simp, by simp⟩, htz, ?_, ?_⟩
  · simp [hvc, htc, htz]
    ring
  · simp

/-! ### Operations -/

/-- **Doubling a triple** follows the tangent, whatever the triple is. -/
theorem IsCanonical.double (h : p.IsCanonical) :
    p.double.IsCanonical ∧ p.double.position = p.position.double := by
  obtain ⟨hc, hx, hy, hz⟩ := coordinates_double h
  refine ⟨hc, ?_⟩
  rw [position, hx, hy, hz]
  exact Position.double_ofTriple two_ne_zero_Fp _ _ _

/-- The chord degenerates for finite triples at one place, and only for these. -/
lemma position_eq_of_chord (hpz : p.z.toZMod ≠ 0) (hqz : q.z.toZMod ≠ 0)
    (h : ((chord p q).h.isZero && (chord p q).r.isZero) = true) : p.position = q.position := by
  obtain ⟨hhc, hhz, hrc, hrz⟩ := coordinates_chord_differences p q
  rw [Bool.and_eq_true, FieldElement.isZero_iff hhc, FieldElement.isZero_iff hrc] at h
  exact Position.ofTriple_eq_of_chord hpz hqz hhz hrz h.1 h.2

/-- The chord leads to the sum of finite triples if it does not degenerate. -/
lemma position_chord (hpz : p.z.toZMod ≠ 0) (hqz : q.z.toZMod ≠ 0)
    (h : ((chord p q).h.isZero && (chord p q).r.isZero) = false) :
    (chord p q).sum.position = p.position.add q.position := by
  obtain ⟨hhc, hhz, hrc, hrz⟩ := coordinates_chord_differences p q
  obtain ⟨-, hx, hy, hz⟩ := coordinates_chord_sum p q
  rw [Bool.and_eq_false_iff, Point.isZero_eq_false_iff hhc, Point.isZero_eq_false_iff hrc] at h
  rw [position, hx, hy, hz]
  exact Position.add_ofTriple hpz hqz hhz hrz h

/-- **Adding triples** follows the chord, whatever the triples are. -/
theorem IsCanonical.add (hp : p.IsCanonical) (hq : q.IsCanonical) :
    (p.add q).IsCanonical ∧ (p.add q).position = p.position.add q.position := by
  have hpz : ¬p.isInfinity = true ↔ p.z.toZMod ≠ 0 := (FieldElement.isZero_iff hp.z).not
  have hqz : ¬q.isInfinity = true ↔ q.z.toZMod ≠ 0 := (FieldElement.isZero_iff hq.z).not
  rw [JacobianPoint.add]
  split
  case isTrue hq0 =>
    rw [hq.isInfinity_iff.mp hq0, Position.add_infinity]
    exact ⟨hp, rfl⟩
  case isFalse hq0 =>
  split
  case isTrue hp0 =>
    rw [hp.isInfinity_iff.mp hp0, Position.infinity_add]
    exact ⟨hq, rfl⟩
  case isFalse hp0 =>
  split
  case isTrue hc =>
    rw [← position_eq_of_chord (hpz.mp hp0) (hqz.mp hq0) hc, Position.add_self]
    exact hp.double
  case isFalse hc =>
    refine ⟨(coordinates_chord_sum p q).1, ?_⟩
    exact position_chord (hpz.mp hp0) (hqz.mp hq0) (Bool.eq_false_iff.mpr hc)

/-! ### Completeness -/

/-- **The formulas are complete.** What they make of any canonical triples is equal, as a point,
to what the operations with divisions make of the points, which never fail. -/
theorem formulas_complete (hp : p.IsCanonical) (hq : q.IsCanonical) :
    (∃ r, p.toPoint.add q.toPoint = .ok r ∧ (p.add q).toPoint.equals r = true) ∧
      ∃ r, p.toPoint.double = .ok r ∧ p.double.toPoint.equals r = true := by
  constructor
  · obtain ⟨hc, hsum⟩ := hp.add hq
    obtain ⟨r, hr, hw, hpos⟩ := hp.wellFormed_toPoint.add hq.wellFormed_toPoint
    refine ⟨r, hr, ?_⟩
    rw [Point.equals_iff_position hc.wellFormed_toPoint hw, hpos, hc.position_toPoint, hsum,
      hp.position_toPoint, hq.position_toPoint]
  · obtain ⟨hc, hdouble⟩ := hp.double
    obtain ⟨r, hr, hw, hpos⟩ := hp.wellFormed_toPoint.double
    refine ⟨r, hr, ?_⟩
    rw [Point.equals_iff_position hc.wellFormed_toPoint hw, hpos, hc.position_toPoint, hdouble,
      hp.position_toPoint]

/-- One point off the curve under two scales, so that the sum takes the tangent. -/
theorem formulas_complete_rescaled :
    let p : JacobianPoint := ⟨.one, .one, .one⟩
    let q : JacobianPoint := ⟨.ofWord 4, .ofWord 8, .ofWord 2⟩
    p.IsCanonical ∧ q.IsCanonical ∧ p.y.square ≠ Point.curveRhs p.x ∧ p.add q = p.double ∧
      (∃ r, p.toPoint.add q.toPoint = .ok r ∧ (p.add q).toPoint.equals r = true) ∧
        ∃ r, p.toPoint.double = .ok r ∧ p.double.toPoint.equals r = true := by
  have hp : IsCanonical ⟨.one, .one, .one⟩ := ⟨by simp, by simp, by simp⟩
  have hq : IsCanonical ⟨.ofWord 4, .ofWord 8, .ofWord 2⟩ := ⟨by simp, by simp, by simp⟩
  exact ⟨hp, hq, by decide +kernel, by decide +kernel, formulas_complete hp hq⟩

end Secp256k1.JacobianPoint
