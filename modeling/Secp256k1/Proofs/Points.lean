import Secp256k1.Point.Generator
import Secp256k1.Proofs.GroupOrder
import Secp256k1.Proofs.Positions

/-!
Points as elements of the group.

A well-formed point denotes an element of the group if its coordinates represent it, whether
they are affine or Jacobian. The points on the curve are the ones that denote something, and the
operations on points denote the operations of the group.
-/

namespace Secp256k1

open WeierstrassCurve.Affine

namespace Point

variable {p q : Point} {x y z : FieldElement}

@[simp] lemma isCanonical_curveRhs (x : FieldElement) : (curveRhs x).IsCanonical :=
  FieldElement.isCanonical_add (FieldElement.isCanonical_mul _ _)
    (FieldElement.isCanonical_ofWord _)

@[simp] lemma toZMod_curveRhs (x : FieldElement) : (curveRhs x).toZMod = x.toZMod ^ 3 + 7 := by
  rw [curveRhs, FieldElement.toZMod_add (FieldElement.isCanonical_mul _ _)
    (FieldElement.isCanonical_ofWord _), FieldElement.toZMod_mul, FieldElement.toZMod_square,
    FieldElement.toZMod_ofWord, ← pow_succ]
  rfl

lemma square_eq_curveRhs_iff (x y : FieldElement) :
    y.square = curveRhs x ↔ y.toZMod ^ 2 = x.toZMod ^ 3 + 7 := by
  rw [← FieldElement.toZMod_inj (FieldElement.isCanonical_square y) (isCanonical_curveRhs x),
    FieldElement.toZMod_square, toZMod_curveRhs]

/-! ### What a point denotes -/

/-- A well-formed point denotes what its coordinates represent. -/
structure Denotes (p : Point) (P : CurvePoint) : Prop where
  wellFormed : p.WellFormed
  represents : Represents p.x.toZMod p.y.toZMod p.z.toZMod P

variable {P Q : CurvePoint}

/-- A well-formed point denotes the element with its position. -/
lemma denotes_iff : p.Denotes P ↔ p.WellFormed ∧ p.position = .ofGroup P :=
  ⟨fun h => ⟨h.wellFormed, Position.represents_iff.mp h.represents⟩,
    fun h => ⟨h.1, Position.represents_iff.mpr h.2⟩⟩

lemma Denotes.position_eq (h : p.Denotes P) : p.position = .ofGroup P := (denotes_iff.mp h).2

lemma denotes_infinity : infinity.Denotes 0 where
  wellFormed := wellFormed_infinity
  represents := by
    rw [infinity, FieldElement.toZMod_zero]
    exact Represents.infinity _ _

lemma denotes_ofAffine (hx : x.IsCanonical) (hy : y.IsCanonical)
    (h : (curve (7 : Fp)).Nonsingular x.toZMod y.toZMod) :
    (ofAffine x y).Denotes (.some _ _ h) where
  wellFormed := wellFormed_ofAffine hx hy
  represents := by
    rw [ofAffine, FieldElement.toZMod_one]
    exact Represents.affine h

lemma denotes_generator : generator.Denotes basePoint := by
  have hx : (⟨Parameters.generatorX⟩ : FieldElement).IsCanonical := by
    rw [FieldElement.isCanonical_iff]
    decide
  have hy : (⟨Parameters.generatorY⟩ : FieldElement).IsCanonical := by
    rw [FieldElement.isCanonical_iff]
    decide
  exact denotes_ofAffine hx hy nonsingular_generator

/-- A point denotes one element only. -/
lemma Denotes.unique (hP : p.Denotes P) (hQ : p.Denotes Q) : P = Q :=
  Position.ofGroup_injective (hP.position_eq.symm.trans hQ.position_eq)

lemma Denotes.isInfinity_iff (h : p.Denotes P) : p.isInfinity = true ↔ P = 0 := by
  rw [h.wellFormed.isInfinity_iff_position, h.position_eq]
  exact Position.ofGroup_injective.eq_iff' rfl

lemma Denotes.eq_infinity (h : p.Denotes 0) : p = .infinity :=
  h.wellFormed.infinity ((Point.isInfinity_iff p).mp (h.isInfinity_iff.mpr rfl))

lemma Denotes.isInfinity_eq (h : p.Denotes P) : p.isInfinity = decide (P = 0) := by
  rw [Bool.eq_iff_iff, h.isInfinity_iff, decide_eq_true_iff]

/-- The affine form denotes the same element. -/
lemma denotes_toAffine_iff (h : p.WellFormed) : p.toAffine.Denotes P ↔ p.Denotes P := by
  rw [denotes_iff, denotes_iff, h.position_toAffine]
  exact and_congr_left' (iff_of_true h.toAffine h)

lemma Denotes.toAffine (h : p.Denotes P) : p.toAffine.Denotes P :=
  (denotes_toAffine_iff h.wellFormed).mpr h

/-- The affine coordinates of a finite point. -/
lemma Denotes.exists_affine (h : p.Denotes P) (h0 : P ≠ 0) :
    ∃ x y, x.IsCanonical ∧ y.IsCanonical ∧ p.toAffine = ofAffine x y ∧
      ∃ hn : (curve (7 : Fp)).Nonsingular x.toZMod y.toZMod, P = .some _ _ hn := by
  rcases h.wellFormed.position_cases with rfl | ⟨-, x, y, hx, hy, e, hpos⟩
  · exact absurd (h.isInfinity_iff.mp rfl) h0
  · rw [h.position_eq] at hpos
    rcases P with _ | ⟨u, v, hn⟩
    · cases hpos
    · obtain ⟨rfl, rfl⟩ := Position.finite.inj hpos
      exact ⟨x, y, hx, hy, e, hn, rfl⟩

/-- The affine coordinates are those of the element. -/
lemma Denotes.toAffine_coordinates {x y : Fp} {hn : (curve (7 : Fp)).Nonsingular x y}
    (h : p.Denotes (.some x y hn)) :
    p.toAffine.x.value.toNat = x.val ∧ (p.toAffine.y.isOdd = true ↔ y.val % 2 = 1) := by
  obtain ⟨x', y', hx, hy, e, hn', he⟩ := h.exists_affine (Point.some_ne_zero hn)
  obtain ⟨rfl, rfl⟩ := Point.some.inj he
  rw [e, FieldElement.val_toZMod hx]
  exact ⟨rfl, FieldElement.isOdd_iff hy⟩

/-- **The points on the curve are those that denote an element of the group.** -/
theorem isOnCurve_iff (h : p.WellFormed) : p.isOnCurve = true ↔ ∃ P, p.Denotes P := by
  rcases h.toAffine_cases with rfl | ⟨hi, x, y, hx, hy, e⟩
  · exact iff_of_true rfl ⟨0, denotes_infinity⟩
  have hc : p.isOnCurve = true ↔ y.toZMod ^ 2 = x.toZMod ^ 3 + 7 := by
    simp [isOnCurve, hi, e, ofAffine, square_eq_curveRhs_iff]
  rw [hc]
  constructor
  · intro heq
    have hn := (nonsingular_iff_equation _ _).mpr heq
    refine ⟨.some _ _ hn, (denotes_toAffine_iff h).mp ?_⟩
    rw [e]
    exact denotes_ofAffine hx hy hn
  · rintro ⟨P, hP⟩
    have h0 : P ≠ 0 := by rw [ne_eq, ← hP.isInfinity_iff, hi]; exact Bool.false_ne_true
    obtain ⟨x', y', -, -, e', hn, -⟩ := hP.exists_affine h0
    have he := e.symm.trans e'
    simp only [ofAffine, mk.injEq] at he
    obtain ⟨rfl, rfl, -⟩ := he
    exact (nonsingular_iff_equation _ _).mp hn

lemma Denotes.isOnCurve (h : p.Denotes P) : p.isOnCurve = true :=
  (isOnCurve_iff h.wellFormed).mpr ⟨P, h⟩

/-! ### Operations -/

lemma Denotes.neg (h : p.Denotes P) : p.neg.Denotes (-P) := by
  refine denotes_iff.mpr ⟨h.wellFormed.neg, ?_⟩
  rw [h.wellFormed.position_neg, h.position_eq, Position.ofGroup_neg]

/-- **Equality of points is equality in the group.** -/
theorem Denotes.equals_iff (hP : p.Denotes P) (hQ : q.Denotes Q) :
    p.equals q = true ↔ P = Q := by
  rw [equals_iff_position hP.wellFormed hQ.wellFormed, hP.position_eq, hQ.position_eq]
  exact Position.ofGroup_injective.eq_iff

/-- **Doubling never fails.** -/
theorem Denotes.double (h : p.Denotes P) : ∃ r, p.double = .ok r ∧ r.Denotes (P + P) := by
  obtain ⟨r, hr, hw, hpos⟩ := h.wellFormed.double
  refine ⟨r, hr, denotes_iff.mpr ⟨hw, ?_⟩⟩
  rw [hpos, h.position_eq, Position.ofGroup_add two_ne_zero_Fp, Position.add_self]

/-- **Adding never fails.** -/
theorem Denotes.add (hP : p.Denotes P) (hQ : q.Denotes Q) :
    ∃ r, p.add q = .ok r ∧ r.Denotes (P + Q) := by
  obtain ⟨r, hr, hw, hpos⟩ := hP.wellFormed.add hQ.wellFormed
  refine ⟨r, hr, denotes_iff.mpr ⟨hw, ?_⟩⟩
  rw [hpos, hP.position_eq, hQ.position_eq, Position.ofGroup_add two_ne_zero_Fp]

/-! ### Results in affine form -/

lemma toAffine_of_affine (h : p.form = .affine) : p.toAffine = p := by rw [toAffine, h]

lemma system_toAffine (p : Point) : p.toAffine.system = .affine := by
  rcases hf : p.form with _ | _ | _
  · rw [toAffine, hf]
    rfl
  · rw [toAffine_of_affine hf, system, hf]
  · rcases hz : p.z.isZero
    · rw [toAffine_of_jacobian hf hz]
      rfl
    · rw [toAffine, hf]
      simp only [hz]
      rfl

/-- Doubling leaves the affine form. -/
lemma system_of_double (h : p.double = .ok r) : r.system = .affine := by
  unfold Point.double at h
  split at h
  · obtain rfl := Except.ok.inj h
    rfl
  dsimp only at h
  split at h
  · obtain rfl := Except.ok.inj h
    rfl
  · rcases hi : p.toAffine.y.double.invert with e | i
    · rw [hi] at h
      cases h
    · rw [hi] at h
      obtain rfl := Except.ok.inj h
      rfl

lemma system_of_add (h : p.add q = .ok r) : r.system = .affine := by
  unfold Point.add at h
  split at h
  · obtain rfl := Except.ok.inj h
    exact system_toAffine q
  dsimp only at h
  split at h
  · obtain rfl := Except.ok.inj h
    exact system_toAffine p
  split at h
  · split at h
    · exact system_of_double h
    · obtain rfl := Except.ok.inj h
      rfl
  · rcases hi : (q.toAffine.x - p.toAffine.x).invert with e | i
    · rw [hi] at h
      cases h
    · rw [hi] at h
      obtain rfl := Except.ok.inj h
      rfl

lemma WellFormed.toAffine_of_system (h : p.WellFormed) (hs : p.system = .affine) :
    p.toAffine = p := by
  rcases h.cases with e | e | ⟨e, -⟩
  · rw [e]
    rfl
  · rw [e]
    rfl
  · rw [e] at hs
    cases hs

/-- **In affine form a position has one representation only.** -/
theorem WellFormed.eq_of_position (hp : p.WellFormed) (hq : q.WellFormed)
    (hps : p.system = .affine) (hqs : q.system = .affine) (h : p.position = q.position) :
    p = q := by
  rcases hp.position_cases with rfl | ⟨-, x₁, y₁, hx₁, hy₁, e₁, h₁⟩
  · rw [position_infinity, eq_comm, ← hq.isInfinity_iff_position, isInfinity_iff] at h
    exact (hq.infinity h).symm
  rcases hq.position_cases with rfl | ⟨-, x₂, y₂, hx₂, hy₂, e₂, h₂⟩
  · rw [position_infinity, ← hp.isInfinity_iff_position, isInfinity_iff] at h
    exact hp.infinity h
  · rw [h₁, h₂] at h
    obtain ⟨hx, hy⟩ := Position.finite.inj h
    rw [FieldElement.toZMod_inj hx₁ hx₂] at hx
    rw [FieldElement.toZMod_inj hy₁ hy₂] at hy
    rw [← hp.toAffine_of_system hps, ← hq.toAffine_of_system hqs, e₁, e₂, hx, hy]

lemma Denotes.eq_of_affine (hp : p.Denotes P) (hq : q.Denotes P) (hps : p.system = .affine)
    (hqs : q.system = .affine) : p = q :=
  hp.wellFormed.eq_of_position hq.wellFormed hps hqs (hp.position_eq.trans hq.position_eq.symm)

end Point

end Secp256k1
