import Secp256k1.LookupTable
import Secp256k1.Point.Sec1
import Secp256k1.Proofs.Countermeasures
import Secp256k1.Proofs.Rescaling

/-!
Results do not depend on how a point is stored.

Equal points have one affine form, and everything but the ladder and the negation looks at that
form only. The ladder works on the coordinates as they are stored, and leads from rescaled
triples to rescaled triples. None of it needs the points to be on the curve.
-/

namespace Secp256k1

open Engine Multiplication

variable {p q r : Point}

/-! ### Triples and affine forms -/

namespace JacobianPoint

/-- The affine form of a triple with its coordinates. -/
lemma toAffine_toPoint (t : JacobianPoint) : t.toPoint.toAffine =
    if t.isInfinity then .infinity
    else .ofAffine (t.x * t.z.invertOrZero.square)
      (t.y * (t.z.invertOrZero.square * t.z.invertOrZero)) := by
  unfold toPoint Point.ofJacobian isInfinity
  split
  · rfl
  · next hz => exact Point.toAffine_of_jacobian rfl (Bool.eq_false_iff.mpr hz)

/-- **Rescaled triples have one affine form.** -/
theorem Rescaled.toAffine_eq {t u : JacobianPoint} (h : t.Rescaled u) :
    t.toPoint.toAffine = u.toPoint.toAffine := by
  obtain ⟨c, h⟩ := h
  have hc := h.ne_zero
  rw [toAffine_toPoint, toAffine_toPoint, h.isInfinity_eq]
  split
  · rfl
  · refine congrArg₂ Point.ofAffine ?_ ?_
    · rw [← FieldElement.toZMod_inj (by simp) (by simp)]
      simp only [FieldElement.toZMod_mul, FieldElement.toZMod_square,
        FieldElement.toZMod_invertOrZero, h.x, h.z]
      field_simp
    · rw [← FieldElement.toZMod_inj (by simp) (by simp)]
      simp only [FieldElement.toZMod_mul, FieldElement.toZMod_square,
        FieldElement.toZMod_invertOrZero, h.y, h.z]
      field_simp

end JacobianPoint

namespace Point

open JacobianPoint

/-! ### Equality -/

lemma WellFormed.ofPoint_eq (h : p.WellFormed) (hi : p.isInfinity = false) :
    ofPoint p = ⟨p.x, p.y, p.z⟩ := by
  rcases h.cases with e | e | ⟨e, -⟩
  · rw [e] at hi
    cases hi
  · rw [e]
    rfl
  · rw [ofPoint, e]

/-- A point and its affine form are rescaled; the factor is `z`. -/
lemma WellFormed.rescaled_toAffine (h : p.WellFormed) :
    (ofPoint p.toAffine).Rescaled (ofPoint p) := by
  have hx := h.x_canonical
  have hy := h.y_canonical
  have hz := h.z_canonical
  rcases h.cases with e | e | ⟨e, hz0⟩
  · rw [e]
    exact JacobianPoint.isCanonical_infinity.rescaled
  · rw [e]
    exact (IsCanonical.mk hx hy FieldElement.isCanonical_one).rescaled
  · have hf : p.form = .jacobian := by rw [e]
    have hi : p.isInfinity = false := by rw [e]; rfl
    rw [h.ofPoint_eq hi, toAffine_of_jacobian hf ((isZero_eq_false_iff hz).mpr hz0)]
    have hc : (ofPoint (ofAffine (p.x * p.z.invertOrZero.square)
        (p.y * (p.z.invertOrZero.square * p.z.invertOrZero)))).IsCanonical :=
      ⟨FieldElement.isCanonical_mul _ _, FieldElement.isCanonical_mul _ _,
        FieldElement.isCanonical_one⟩
    refine ⟨p.z.toZMod, hc, ⟨hx, hy, hz⟩, hz0, ?_, ?_, ?_⟩
    · simp [ofPoint, ofAffine]
      field_simp
    · simp [ofPoint, ofAffine]
      field_simp
    · simp [ofPoint, ofAffine]

lemma equals_iff (p q : Point) : p.equals q = true ↔ p.isInfinity = q.isInfinity ∧
    (p.isInfinity = false → p.toAffine.x = q.toAffine.x ∧ p.toAffine.y = q.toAffine.y) := by
  unfold equals
  cases p.isInfinity <;> cases q.isInfinity <;> simp

lemma isInfinity_eq_of_equals (h : p.equals q = true) : p.isInfinity = q.isInfinity :=
  ((equals_iff p q).mp h).1

/-- **Equality of points is an equivalence.** -/
theorem equals_equivalence : Equivalence fun p q : Point => p.equals q = true := by
  constructor
  case refl =>
    intro p
    exact (equals_iff p p).mpr ⟨rfl, fun _ => ⟨rfl, rfl⟩⟩
  case symm =>
    intro p q h
    rw [equals_iff] at h ⊢
    refine ⟨h.1.symm, fun hq => ?_⟩
    obtain ⟨hx, hy⟩ := h.2 (h.1.trans hq)
    exact ⟨hx.symm, hy.symm⟩
  case trans =>
    intro p q r h h'
    rw [equals_iff] at h h' ⊢
    refine ⟨h.1.trans h'.1, fun hp => ?_⟩
    obtain ⟨hx, hy⟩ := h.2 hp
    obtain ⟨hx', hy'⟩ := h'.2 (h.1.symm.trans hp)
    exact ⟨hx.trans hx', hy.trans hy'⟩

/-- **Points are equal exactly if they have one affine form.** -/
theorem equals_iff_toAffine_eq (hp : p.WellFormed) (hq : q.WellFormed) :
    p.equals q = true ↔ p.toAffine = q.toAffine := by
  rw [equals_iff_position hp hq]
  constructor
  · intro h
    apply hp.toAffine.eq_of_position hq.toAffine (system_toAffine p) (system_toAffine q)
    rw [hp.position_toAffine, hq.position_toAffine, h]
  · intro h
    rw [← hp.position_toAffine, h, hq.position_toAffine]

/-- The triple of a point stands for the point. -/
lemma WellFormed.toAffine_ofPoint (h : p.WellFormed) :
    (ofPoint p).toPoint.toAffine = p.toAffine := by
  rw [← h.rescaled_toAffine.toAffine_eq]
  rcases h.toAffine_cases with rfl | ⟨-, x, y, hx, hy, e⟩
  · rfl
  · have hi : (ofPoint (ofAffine x y)).isInfinity = false := rfl
    rw [e, toAffine_toPoint, hi, if_neg Bool.false_ne_true]
    refine congrArg₂ ofAffine ?_ ?_
    · rw [← FieldElement.toZMod_inj (by simp) hx]
      simp [ofPoint, ofAffine]
    · rw [← FieldElement.toZMod_inj (by simp) hy]
      simp [ofPoint, ofAffine]

/-- **Points are equal exactly if their triples are rescaled.** -/
theorem equals_iff_rescaled (hp : p.WellFormed) (hq : q.WellFormed) :
    p.equals q = true ↔ (ofPoint p).Rescaled (ofPoint q) := by
  rw [equals_iff_toAffine_eq hp hq]
  constructor
  · intro h
    have hpa := hp.rescaled_toAffine
    rw [h] at hpa
    exact hpa.symm.trans hq.rescaled_toAffine
  · intro h
    rw [← hp.toAffine_ofPoint, ← hq.toAffine_ofPoint, h.toAffine_eq]

/-! ### Masks -/

/-- **A mask that is not zero leaves a point equal to itself**, on the curve or off it. -/
theorem WellFormed.equals_rescale (h : p.WellFormed) {mask : FieldElement} (hm : mask.IsCanonical)
    (hm0 : mask.toZMod ≠ 0) : p.equals (p.rescale mask) = true :=
  (equals_iff_position h (h.rescale hm)).mpr (h.position_rescale hm hm0).symm

variable {σ ω : Type} [RandomSource σ]

/-- What a random mask leads to is equal to the point. -/
lemma WellFormed.equals_of_randomize (h : p.WellFormed) {s : State σ ω}
    (hq : (p.randomize.run s).1 = .ok q) : q.WellFormed ∧ p.equals q = true := by
  rw [drawsBy_randomize] at hq
  obtain rfl | ⟨m, hm, hm0, rfl⟩ := randomizeStep_cases hq
  · exact ⟨h, equals_equivalence.refl q⟩
  · exact ⟨h.rescale hm, h.equals_rescale hm hm0⟩

/-! ### Opposite points -/

/-- Opposites of equal points are equal. -/
theorem neg_equals_neg (hp : p.WellFormed) (hq : q.WellFormed) (h : p.equals q = true) :
    p.neg.equals q.neg = true := by
  rw [equals_iff_position hp.neg hq.neg, hp.position_neg, hq.position_neg,
    (equals_iff_position hp hq).mp h]

/-! ### Multiples -/

/-- **The ladder on equal points** gives one and the same affine form, for any string of bits and
on any curve. -/
theorem montgomeryLadder_eq {κ : Type} [BitString κ] (k : κ) (hp : p.WellFormed)
    (hq : q.WellFormed) (h : p.equals q = true) :
    montgomeryLadder k p = montgomeryLadder k q := by
  have hstart : Rungs.Rescaled ⟨.infinity, ofPoint p⟩ ⟨.infinity, ofPoint q⟩ :=
    ⟨JacobianPoint.isCanonical_infinity.rescaled, (equals_iff_rescaled hp hq).mp h⟩
  have hend := (climb_rescaled k (BitString.width κ) hstart).lower.toAffine_eq
  unfold montgomeryLadder
  rw [isInfinity_eq_of_equals h]
  split
  · rfl
  · exact congrArg Except.ok hend

lemma isFor_eq_of_equals (t : OddMultiples) (h : p.equals q = true) : t.isFor p = t.isFor q := by
  unfold OddMultiples.isFor
  rw [Bool.eq_iff_iff]
  exact ⟨fun hp => equals_equivalence.trans hp h,
    fun hq => equals_equivalence.trans hq (equals_equivalence.symm h)⟩

/-- **Multiples of equal points** are the same outcome, by every algorithm and with any table. -/
theorem multiply_eq_of_equals {κ : Type} [BitString κ] (algorithm : Algorithm) (k : κ)
    (table : Option OddMultiples) (hp : p.WellFormed) (hq : q.WellFormed)
    (h : p.equals q = true) : multiply algorithm k p table = multiply algorithm k q table := by
  have hi := isInfinity_eq_of_equals h
  have ha := (equals_iff_toAffine_eq hp hq).mp h
  have hdouble : doubleAndAdd k p = doubleAndAdd k q := by
    unfold doubleAndAdd
    rw [hi, ha]
  cases algorithm with
  | doubleAndAdd => exact hdouble
  | montgomeryLadder => exact montgomeryLadder_eq k hp hq h
  | windowedNaf =>
    rcases table with _ | t
    · exact hdouble
    · have hwindows : windowedNaf k p (some t) = windowedNaf k q (some t) := by
        unfold windowedNaf
        dsimp only
        rw [hi, isFor_eq_of_equals t h]
      exact hwindows

/-! ### All operations -/

/-- No operation tells two points apart: each has the same outcome for both, errors and all.
Only an opposite point may be stored differently. -/
structure Interchangeable (p q : Point) : Prop where
  add_left : ∀ r : Point, p.add r = q.add r
  add_right : ∀ r : Point, r.add p = r.add q
  sub_left : ∀ r : Point, p.sub r = q.sub r
  sub_right : ∀ r : Point, r.sub p = r.sub q
  double : p.double = q.double
  neg : p.neg.equals q.neg = true
  multiply : ∀ {κ : Type} [BitString κ] (algorithm : Algorithm) (k : κ)
    (table : Option OddMultiples), multiply algorithm k p table = multiply algorithm k q table
  xBytes : p.xBytes = q.xBytes
  yBytes : p.yBytes = q.yBytes
  toCompressed : p.toCompressed = q.toCompressed
  toUncompressed : p.toUncompressed = q.toUncompressed
  isOnCurve : p.isOnCurve = q.isOnCurve
  hash : p.hash = q.hash
  build : ∀ window, OddMultiples.build p window = OddMultiples.build q window
  isFor : ∀ t : OddMultiples, t.isFor p = t.isFor q
  contains : ∀ t : LookupTable, t.contains p = t.contains q
  accessCount : ∀ t : LookupTable, t.accessCount? p = t.accessCount? q
  lookup : ∀ t : LookupTable, t.lookup p = t.lookup q
  insert : ∀ t : LookupTable, t.insert p = t.insert q

lemma add_eq_of_toAffine_eq (hi : p.isInfinity = q.isInfinity) (ha : p.toAffine = q.toAffine)
    (r : Point) : r.add p = r.add q := by
  unfold Point.add
  rw [hi, ha]

/-- **Equal points are interchangeable.** -/
theorem interchangeable_of_equals (hp : p.WellFormed) (hq : q.WellFormed)
    (h : p.equals q = true) : Interchangeable p q := by
  have hi := isInfinity_eq_of_equals h
  have ha := (equals_iff_toAffine_eq hp hq).mp h
  have hneg := neg_equals_neg hp hq h
  have hcurve : p.isOnCurve = q.isOnCurve := by
    unfold Point.isOnCurve
    rw [hi, ha]
  have hdouble : p.double = q.double := by
    unfold Point.double
    rw [hi, ha]
  have hadd : ∀ r : Point, p.add r = q.add r := by
    intro r
    unfold Point.add
    rw [hi, ha]
  have hfind : ∀ t : LookupTable, t.find? p = t.find? q := by
    intro t
    unfold LookupTable.find? LookupTable.search
    rw [hi, ha]
  constructor
  case add_left => exact hadd
  case add_right => exact add_eq_of_toAffine_eq hi ha
  case sub_left => exact fun r => hadd r.neg
  case sub_right =>
    exact add_eq_of_toAffine_eq (isInfinity_eq_of_equals hneg)
      ((equals_iff_toAffine_eq hp.neg hq.neg).mp hneg)
  case double => exact hdouble
  case neg => exact hneg
  case multiply => exact fun algorithm k table => multiply_eq_of_equals algorithm k table hp hq h
  case xBytes => rw [Point.xBytes, Point.xBytes, ha]
  case yBytes => rw [Point.yBytes, Point.yBytes, ha]
  case toCompressed => rw [Point.toCompressed, Point.toCompressed, ha]
  case toUncompressed => rw [Point.toUncompressed, Point.toUncompressed, ha]
  case isOnCurve => exact hcurve
  case hash => rw [Point.hash, Point.hash, ha]
  case build =>
    intro window
    unfold OddMultiples.build Point.validate
    rw [hi, ha, hcurve]
  case isFor => exact fun t => isFor_eq_of_equals t h
  case contains =>
    intro t
    rw [LookupTable.contains, LookupTable.contains, hfind]
  case accessCount =>
    intro t
    rw [LookupTable.accessCount?, LookupTable.accessCount?, hfind]
  case lookup =>
    intro t
    unfold LookupTable.lookup
    simp only [hfind]
  case insert =>
    intro t
    unfold LookupTable.insert LookupTable.search
    rw [hi, ha]

/-- What masking a point once can lead to, whatever the source of randomness hands out. -/
def Masked (p q : Point) : Prop :=
  ∃ (σ ω : Type) (_ : RandomSource σ) (s : State σ ω), (p.randomize.run s).1 = .ok q

/-- **The coordinates that a point is stored with do not matter.** Equality is an equivalence;
equal points are interchangeable, on the curve and off it; and a point is equal to all that
masking makes of it, however often it is masked. -/
theorem representation_irrelevant :
    (Equivalence fun p q : Point => p.equals q = true) ∧
    (∀ p q : Point, p.WellFormed → q.WellFormed → p.equals q = true → Interchangeable p q) ∧
    (∀ (p : Point) (mask : FieldElement), p.WellFormed → mask.IsCanonical → mask.isZero = false →
      (p.rescale mask).WellFormed ∧ p.equals (p.rescale mask) = true) ∧
    ∀ p q : Point, p.WellFormed → Relation.ReflTransGen Masked p q →
      q.WellFormed ∧ p.equals q = true := by
  refine ⟨equals_equivalence, fun p q => interchangeable_of_equals, ?_, ?_⟩
  · intro p mask hp hm hm0
    exact ⟨hp.rescale hm, hp.equals_rescale hm ((isZero_eq_false_iff hm).mp hm0)⟩
  · intro p q hp hmasks
    induction hmasks with
    | refl => exact ⟨hp, equals_equivalence.refl p⟩
    | tail _ hlast ih =>
      obtain ⟨hr, hpr⟩ := ih
      obtain ⟨σ, ω, _, s, hs⟩ := hlast
      obtain ⟨hq, hrq⟩ := hr.equals_of_randomize hs
      exact ⟨hq, equals_equivalence.trans hpr hrq⟩

/-- A point off the curve, under the mask 2. -/
theorem representation_irrelevant_off_curve :
    (ofAffine .one .one).isOnCurve = false ∧
      Masked (ofAffine .one .one) (ofJacobian (.ofWord 4) (.ofWord 8) (.ofWord 2)) ∧
      Interchangeable (ofAffine .one .one) (ofJacobian (.ofWord 4) (.ofWord 8) (.ofWord 2)) := by
  have hwf : (ofAffine .one .one).WellFormed :=
    wellFormed_ofAffine FieldElement.isCanonical_one FieldElement.isCanonical_one
  have hmask : Masked (ofAffine .one .one) (ofJacobian (.ofWord 4) (.ofWord 8) (.ofWord 2)) :=
    ⟨Tape, Unit, inferInstance, ⟨⟨(Array.replicate 31 0).push 2, .zero, 0⟩, [], ()⟩, by
      decide +kernel⟩
  obtain ⟨-, hsame, -, hmasked⟩ := representation_irrelevant
  obtain ⟨hq, heq⟩ := hmasked _ _ hwf (.single hmask)
  exact ⟨by decide +kernel, hmask, hsame _ _ hwf hq heq⟩

end Point

end Secp256k1
