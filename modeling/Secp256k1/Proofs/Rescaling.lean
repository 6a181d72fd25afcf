import Secp256k1.Multiplication.Basic
import Secp256k1.Proofs.Triples

/-!
Rescaled triples.

Scaling a triple `(x, y, z)` to `(x * c², y * c³, z * c)` leaves the affine point as it is. The
formulas for doubles and chords are homogeneous, so what they make of rescaled triples is
rescaled; and this needs no equation of a curve, so it also holds off the curve, where nothing
is known about the group.
-/

namespace Secp256k1

namespace JacobianPoint

/-- The second triple is the first one scaled by a factor. -/
structure ScaledBy (c : Fp) (p q : JacobianPoint) : Prop where
  left : p.IsCanonical
  right : q.IsCanonical
  ne_zero : c ≠ 0
  x : q.x.toZMod = p.x.toZMod * c ^ 2
  y : q.y.toZMod = p.y.toZMod * c ^ 3
  z : q.z.toZMod = p.z.toZMod * c

/-- One triple is the other one scaled by some factor. -/
def Rescaled (p q : JacobianPoint) : Prop := ∃ c, ScaledBy c p q

variable {p q r s : JacobianPoint} {c d : Fp}

/-! ### An equivalence -/

lemma IsCanonical.rescaled (h : p.IsCanonical) : p.Rescaled p :=
  ⟨1, h, h, one_ne_zero, by ring, by ring, by ring⟩

lemma Rescaled.symm (h : p.Rescaled q) : q.Rescaled p := by
  obtain ⟨c, hp, hq, hc, hx, hy, hz⟩ := h
  refine ⟨c⁻¹, hq, hp, inv_ne_zero hc, ?_, ?_, ?_⟩
  · rw [hx]
    field_simp
  · rw [hy]
    field_simp
  · rw [hz]
    field_simp

lemma Rescaled.trans (h : p.Rescaled q) (h' : q.Rescaled r) : p.Rescaled r := by
  obtain ⟨c, hp, -, hc, hx, hy, hz⟩ := h
  obtain ⟨d, -, hr, hd, hx', hy', hz'⟩ := h'
  refine ⟨c * d, hp, hr, mul_ne_zero hc hd, ?_, ?_, ?_⟩
  · rw [hx', hx]
    ring
  · rw [hy', hy]
    ring
  · rw [hz', hz]
    ring

/-! ### Operations -/

lemma ScaledBy.isInfinity_eq (h : ScaledBy c p q) : q.isInfinity = p.isInfinity := by
  rw [Bool.eq_iff_iff, isInfinity, isInfinity, FieldElement.isZero_iff h.right.z,
    FieldElement.isZero_iff h.left.z, h.z, mul_eq_zero, or_iff_left h.ne_zero]

/-- A double has the weight 4 in the factor. -/
lemma ScaledBy.double (h : ScaledBy c p q) : ScaledBy (c ^ 4) p.double q.double := by
  obtain ⟨hp, hq, hc, hx, hy, hz⟩ := h
  obtain ⟨hpc, hpx, hpy, hpz⟩ := coordinates_double hp
  obtain ⟨hqc, hqx, hqy, hqz⟩ := coordinates_double hq
  refine ⟨hpc, hqc, pow_ne_zero 4 hc, ?_, ?_, ?_⟩
  · rw [hqx, hpx, hx, hy]
    ring
  · rw [hqy, hpy, hx, hy]
    ring
  · rw [hqz, hpz, hy, hz]
    ring

section Chord

variable (hpq : ScaledBy c p q) (hrs : ScaledBy d r s)
include hpq hrs

lemma ScaledBy.chord_h : (chord q s).h.toZMod = (chord p r).h.toZMod * (c * d) ^ 2 := by
  rw [(coordinates_chord_differences q s).2.1, (coordinates_chord_differences p r).2.1, hpq.x,
    hpq.z, hrs.x, hrs.z]
  ring

lemma ScaledBy.chord_r : (chord q s).r.toZMod = (chord p r).r.toZMod * (c * d) ^ 3 := by
  rw [(coordinates_chord_differences q s).2.2.2, (coordinates_chord_differences p r).2.2.2, hpq.y,
    hpq.z, hrs.y, hrs.z]
  ring

/-- The sum along a chord has the weight 3 in both factors. -/
lemma ScaledBy.chord_sum : ScaledBy ((c * d) ^ 3) (chord p r).sum (chord q s).sum := by
  obtain ⟨hp, hpx, hpy, hpz⟩ := coordinates_chord_sum p r
  obtain ⟨hq, hqx, hqy, hqz⟩ := coordinates_chord_sum q s
  have hh := hpq.chord_h hrs
  have hr := hpq.chord_r hrs
  refine ⟨hp, hq, pow_ne_zero 3 (mul_ne_zero hpq.ne_zero hrs.ne_zero), ?_, ?_, ?_⟩
  · rw [hqx, hpx, hh, hr, hpq.x, hrs.z]
    ring
  · rw [hqy, hpy, hh, hr, hpq.x, hpq.y, hrs.z]
    ring
  · rw [hqz, hpz, hh, hpq.z, hrs.z]
    ring

/-- Scaling does not decide whether a chord degenerates. -/
lemma ScaledBy.chord_isZero :
    ((chord q s).h.isZero && (chord q s).r.isZero) =
      ((chord p r).h.isZero && (chord p r).r.isZero) := by
  obtain ⟨hhp, -, hrp, -⟩ := coordinates_chord_differences p r
  obtain ⟨hhq, -, hrq, -⟩ := coordinates_chord_differences q s
  have hcd := mul_ne_zero hpq.ne_zero hrs.ne_zero
  rw [Bool.eq_iff_iff, Bool.and_eq_true, Bool.and_eq_true, FieldElement.isZero_iff hhq,
    FieldElement.isZero_iff hrq, FieldElement.isZero_iff hhp, FieldElement.isZero_iff hrp,
    hpq.chord_h hrs, hpq.chord_r hrs, mul_eq_zero, mul_eq_zero, or_iff_left (pow_ne_zero 2 hcd),
    or_iff_left (pow_ne_zero 3 hcd)]

end Chord

lemma Rescaled.double (h : p.Rescaled q) : p.double.Rescaled q.double := by
  obtain ⟨c, hc⟩ := h
  exact ⟨c ^ 4, hc.double⟩

/-- **Sums of rescaled triples are rescaled**, in every case of the addition. -/
theorem Rescaled.add (hpq : p.Rescaled q) (hrs : r.Rescaled s) : (p.add r).Rescaled (q.add s) := by
  obtain ⟨c, hc⟩ := hpq
  obtain ⟨d, hd⟩ := hrs
  unfold JacobianPoint.add
  simp only [hc.isInfinity_eq, hd.isInfinity_eq, hc.chord_isZero hd]
  split_ifs
  · exact ⟨c, hc⟩
  · exact ⟨d, hd⟩
  · exact ⟨c ^ 4, hc.double⟩
  · exact ⟨(c * d) ^ 3, hc.chord_sum hd⟩

end JacobianPoint

/-! ### The ladder -/

namespace Multiplication

variable {κ : Type} [BitString κ]

/-- The registers are rescaled, each by a factor of its own. -/
structure Rungs.Rescaled (r s : Rungs) : Prop where
  lower : r.lower.Rescaled s.lower
  upper : r.upper.Rescaled s.upper

lemma Rungs.Rescaled.step {r s : Rungs} (h : r.Rescaled s) (bit : Bool) :
    (r.step bit).Rescaled (s.step bit) := by
  cases bit
  · exact ⟨h.lower.double, h.lower.add h.upper⟩
  · exact ⟨h.upper.add h.lower, h.upper.double⟩

lemma climb_rescaled (k : κ) (i : ℕ) {r s : Rungs} (h : r.Rescaled s) :
    (climb k i r).Rescaled (climb k i s) := by
  induction i generalizing r s with
  | zero => exact h
  | succ i ih =>
    unfold climb
    exact ih (h.step _)

end Multiplication

end Secp256k1
