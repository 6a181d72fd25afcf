import Secp256k1.Proofs.Points

/-!
The points of the curve form an abelian group.

The operations fail on no point of the curve, and lead from the curve to the curve. Where the
group has an equation, both of its sides are computed to points that are equal as elements of
the group, though they need not be stored alike.
-/

namespace Secp256k1.Point

variable {p q r : Point} {P Q : CurvePoint} {a b : Except Error Point}

/-- The outcome is a point that denotes the element. -/
def Computes (a : Except Error Point) (P : CurvePoint) : Prop := ∃ r, a = .ok r ∧ r.Denotes P

/-- Both outcomes are points, and they are equal. -/
def Same (a b : Except Error Point) : Prop := ∃ p q, a = .ok p ∧ b = .ok q ∧ p.equals q = true

lemma Denotes.computes (h : p.Denotes P) : Computes (.ok p) P := ⟨p, rfl, h⟩

lemma Denotes.computes_add (hp : p.Denotes P) (hq : q.Denotes Q) :
    Computes (p.add q) (P + Q) := hp.add hq

lemma Computes.bind {f : Point → Except Error Point} (ha : Computes a P)
    (hf : ∀ p, p.Denotes P → Computes (f p) Q) : Computes (a >>= f) Q := by
  obtain ⟨p, rfl, hp⟩ := ha
  exact hf p hp

/-- Outcomes for one element are the same. -/
lemma Computes.same (ha : Computes a P) (hb : Computes b P) : Same a b := by
  obtain ⟨p, rfl, hp⟩ := ha
  obtain ⟨q, rfl, hq⟩ := hb
  exact ⟨p, q, rfl, rfl, (hp.equals_iff hq).mpr rfl⟩

lemma Computes.isOnCurve (h : Computes a P) :
    ∃ r, a = .ok r ∧ r.WellFormed ∧ r.isOnCurve = true := by
  obtain ⟨r, rfl, hr⟩ := h
  exact ⟨r, rfl, hr.wellFormed, hr.isOnCurve⟩

/-- The laws of an abelian group for three points. -/
structure GroupLaws (p q r : Point) : Prop where
  add_mem : ∃ s, p.add q = .ok s ∧ s.WellFormed ∧ s.isOnCurve = true
  double_mem : ∃ s, p.double = .ok s ∧ s.WellFormed ∧ s.isOnCurve = true
  add_comm : Same (p.add q) (q.add p)
  add_assoc : Same (do (← p.add q).add r) (do p.add (← q.add r))
  add_infinity : Same (p.add .infinity) (.ok p)
  infinity_add : Same (Point.infinity.add p) (.ok p)
  add_neg : Same (p.add p.neg) (.ok .infinity)
  sub_eq : Same (p.sub q) (p.add q.neg)
  add_self : Same (p.add p) p.double
  /-- The sum is the one of the chord-and-tangent law. -/
  sum : ∃ P Q, p.Denotes P ∧ q.Denotes Q ∧ Computes (p.add q) (P + Q)

/-- **The points of the curve form an abelian group**, in whatever coordinates they are stored,
and the group is the one of the chord-and-tangent law. -/
theorem groupLaws_of_isOnCurve (hp : p.WellFormed) (hq : q.WellFormed) (hr : r.WellFormed)
    (hpc : p.isOnCurve = true) (hqc : q.isOnCurve = true) (hrc : r.isOnCurve = true) :
    GroupLaws p q r := by
  obtain ⟨P, hP⟩ := (isOnCurve_iff hp).mp hpc
  obtain ⟨Q, hQ⟩ := (isOnCurve_iff hq).mp hqc
  obtain ⟨R, hR⟩ := (isOnCurve_iff hr).mp hrc
  have hadd := hP.computes_add hQ
  have hleft : Computes (do (← p.add q).add r) (P + Q + R) :=
    hadd.bind fun s hs => hs.computes_add hR
  have hright : Computes (do p.add (← q.add r)) (P + (Q + R)) :=
    (hQ.computes_add hR).bind fun s hs => hP.computes_add hs
  have hneg := hP.computes_add hP.neg
  have h0 := hP.computes_add denotes_infinity
  have h0' := denotes_infinity.computes_add hP
  rw [add_zero] at h0
  rw [zero_add] at h0'
  rw [add_neg_cancel] at hneg
  rw [add_assoc P Q R] at hleft
  exact
    { add_mem := hadd.isOnCurve
      double_mem := Computes.isOnCurve hP.double
      add_comm := hadd.same (add_comm Q P ▸ hQ.computes_add hP)
      add_assoc := hleft.same hright
      add_infinity := h0.same hP.computes
      infinity_add := h0'.same hP.computes
      add_neg := hneg.same denotes_infinity.computes
      sub_eq := (hP.computes_add hQ.neg).same (hP.computes_add hQ.neg)
      add_self := (hP.computes_add hP).same hP.double
      sum := ⟨P, Q, hP, hQ, hadd⟩ }

/-- The laws for the generator, infinity, and the opposite of the generator. -/
theorem groupLaws_generator : GroupLaws .generator .infinity generator.neg := by
  have hg := denotes_generator
  have hi := denotes_infinity
  have hn := denotes_generator.neg
  exact groupLaws_of_isOnCurve hg.wellFormed hi.wellFormed hn.wellFormed
    hg.isOnCurve hi.isOnCurve hn.isOnCurve

end Secp256k1.Point
