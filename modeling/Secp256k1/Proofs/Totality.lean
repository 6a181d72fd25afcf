import Secp256k1.Proofs.Provenance
import Secp256k1.Proofs.Trust

/-!
What can fail, and what cannot.

The chords and tangents of points divide by differences that are not zero, on the curve or off
it, so that adding and doubling always give a point. Multiplication fails only if it is handed
the table of another point, and a context never does that: what it refuses is the point.
-/

namespace Secp256k1

open Engine LawfulBitString

variable {p q : Point}

/-! ### Multiples -/

namespace Multiplication

variable {κ : Type} [BitString κ] [LawfulBitString κ] {k : κ} {algorithm : Algorithm}
  {table : Option OddMultiples}

/-- The refusal of a table. -/
def foreignTable : Error :=
  .invalidParameter "windowed_naf" "precomputation table was built for a different base point"

/-- Signed windows are to multiply a finite point by a scalar other than 0, and the table that
they are handed belongs to another point. -/
structure Mismatch (algorithm : Algorithm) (k : κ) (p : Point) (table : Option OddMultiples) :
    Prop where
  algorithm_eq : algorithm = .windowedNaf
  scalar_ne_zero : toNat k ≠ 0
  isInfinity_eq : p.isInfinity = false
  foreign : ∃ t ∈ table, t.isFor p = false

lemma mismatch_iff {t : OddMultiples} : Mismatch .windowedNaf k p (some t) ↔
    (BitString.isZero k || p.isInfinity) = false ∧ t.isFor p = false := by
  rw [Bool.or_eq_false_iff, ← Bool.not_eq_true (BitString.isZero k), isZero_iff]
  constructor
  · rintro ⟨-, h0, hi, u, hu, hfor⟩
    obtain rfl := Option.some.inj hu
    exact ⟨⟨h0, hi⟩, hfor⟩
  · rintro ⟨⟨h0, hi⟩, hfor⟩
    exact ⟨rfl, h0, hi, t, rfl, hfor⟩

/-- Every digit of a scalar selects an entry, also where the digits do not stand for the
scalar. -/
lemma exists_evaluate_ofScalar {t : OddMultiples} {P : CurvePoint} (ht : t.IsTableOf P) (k : κ) :
    ∃ r, evaluate t (SignedDigits.ofScalar k t.window) = .ok r := by
  have hw15 : t.window ≤ 15 := ht.window_le.trans (by omega)
  have hdig := (recoding_ofScalar ht.window_pos hw15 k).isDigit ht.window_pos hw15
  obtain ⟨r, hr, -⟩ := evaluate_spec ht ⟨rfl, hdig⟩
  exact ⟨r, hr⟩

/-- **Multiplication fails on a mismatch only.** -/
theorem multiply_outcome (algorithm : Algorithm) (k : κ) (hp : p.WellFormed)
    (htable : ∀ t ∈ table, ∃ P, t.IsTableOf P) :
    (¬Mismatch algorithm k p table → ∃ r, multiply algorithm k p table = .ok r) ∧
      (Mismatch algorithm k p table → multiply algorithm k p table = .error foreignTable) := by
  obtain ⟨r, hr, -⟩ := doubleAndAdd_position k hp
  cases algorithm with
  | doubleAndAdd => exact ⟨fun _ => ⟨r, hr⟩, fun h => by cases h.algorithm_eq⟩
  | montgomeryLadder =>
    obtain ⟨s, hs, -⟩ := montgomeryLadder_position k hp
    exact ⟨fun _ => ⟨s, hs⟩, fun h => by cases h.algorithm_eq⟩
  | windowedNaf =>
    rcases table with _ | t
    · refine ⟨fun _ => ⟨r, hr⟩, fun h => ?_⟩
      obtain ⟨_, ht, -⟩ := h.foreign
      cases ht
    obtain ⟨P, ht⟩ := htable t rfl
    obtain ⟨m, hm⟩ := exists_evaluate_ofScalar ht k
    rw [mismatch_iff, multiply, windowedNaf, hm]
    -- the multiplication looks at the table only if there is something to multiply
    cases BitString.isZero k || p.isInfinity
    · cases t.isFor p
      · exact ⟨fun h => absurd ⟨rfl, rfl⟩ h, fun _ => rfl⟩
      · exact ⟨fun _ => ⟨m, rfl⟩, fun h => by cases h.2⟩
    · exact ⟨fun _ => ⟨.infinity, rfl⟩, fun h => by cases h.1⟩

end Multiplication

/-- A table that can be made holds the odd multiples of its base. -/
lemma Made.exists_isTableOf {t : OddMultiples} (h : Made (.table t)) : ∃ P, t.IsTableOf P := by
  cases h with
  | build hp h => exact OddMultiples.exists_isTableOf_of_build hp.sound h

/-! ### Contexts -/

namespace Context

variable {σ : Type}

/-- A result, or the refusal of a point that is not on the curve. -/
def ResultOrOffCurve {α : Type} (r : Except Error α) : Prop :=
  (∃ a, r = .ok a) ∨ r = .error (.pointNotOnCurve "CurvePoint::validate")

lemma resultOrOffCurve_ite (h : Prop) [Decidable h] : ResultOrOffCurve
    (if h then .ok () else .error (.pointNotOnCurve "CurvePoint::validate")) := by
  split
  · exact .inl ⟨(), rfl⟩
  · exact .inr rfl

/-- Whatever the settings and the cache are, nothing but a point off the curve is refused. -/
lemma resultOrOffCurve_validatePoint (hp : p.WellFormed) (s : State σ Context) :
    ResultOrOffCurve ((validatePoint p).run s).1 := by
  cases hv : s.store.config.validation with
  | off =>
    unfold validatePoint
    rw [run_stored_bind, hv]
    exact .inl ⟨(), rfl⟩
  | onCurve =>
    unfold validatePoint
    rw [run_stored_bind, hv]
    exact resultOrOffCurve_ite _
  | strict =>
    rw [validatePoint_of_strict hp s hv]
    exact resultOrOffCurve_ite _

/-- A context hands a point no table but the one of the point. -/
lemma not_mismatch_tableFor (c : Context) (algorithm : Algorithm) (k : U256) (p : Point) :
    ¬Multiplication.Mismatch algorithm k p (c.tableFor p) := by
  intro h
  obtain ⟨t, ht, hfor⟩ := h.foreign
  rw [(mem_tableFor_iff.mp ht).2] at hfor
  cases hfor

/-- **A multiplication in a context** gives a result, if it does not refuse the point. -/
theorem ensures_multiplyWith (algorithm : Algorithm) (k : U256) (hp : p.WellFormed) :
    Ensures Sound (multiplyWith algorithm k p : Session σ Point) ResultOrOffCurve := by
  unfold multiplyWith
  refine ((keeps_validatePoint invariant_sound hp).ensures
    (resultOrOffCurve_validatePoint hp)).bind (fun _ _ => ?_) ?_
  · refine (ensures_count invariant_sound _).seq ?_
    refine ensures_stored_bind fun c hc => ?_
    have htable : ∀ t ∈ c.tableFor p, ∃ P, t.IsTableOf P :=
      fun t ht => ⟨basePoint, hc t (mem_tableFor_iff.mp ht).1⟩
    obtain ⟨hok, -⟩ := Multiplication.multiply_outcome algorithm k hp htable
    exact ensures_perform (.inl (hok (c.not_mismatch_tableFor algorithm k p)))
  · rintro e (⟨_, h⟩ | h)
    · cases h
    · obtain rfl := Except.error.inj h
      exact .inr rfl

lemma ensures_multiply (k : U256) (hp : p.WellFormed) :
    Ensures Sound (multiply k p : Session σ Point) ResultOrOffCurve :=
  ensures_stored_bind fun _ _ => ensures_multiplyWith _ k hp

end Context

/-! ### The result -/

open Multiplication Context

/-- **Operations on points never fail**, for all points that can be made, on the curve or off it.
Multiplication fails on a mismatch only, whatever the algorithm and the scalar are. In a context
there are no mismatches: it may refuse a point that is off the curve, but never a parameter, and
it returns all multiples of the generator. -/
theorem operations_total (hp : Made (.point p)) (hq : Made (.point q)) :
    ((∃ r, p.double = .ok r) ∧ (∃ r, p.add q = .ok r) ∧ ∃ r, p.sub q = .ok r) ∧
    (∀ {κ : Type} [BitString κ] [LawfulBitString κ] (algorithm : Algorithm) (k : κ)
        (table : Option OddMultiples), (∀ t ∈ table, Made (.table t)) →
      (¬Mismatch algorithm k p table → ∃ r, multiply algorithm k p table = .ok r) ∧
      (Mismatch algorithm k p table → multiply algorithm k p table = .error foreignTable)) ∧
    ∀ {σ : Type} (s : State σ Context), Reachable s.store →
      (∀ k, ResultOrOffCurve ((Context.multiply k p).run s).1) ∧
      (∀ algorithm k, ResultOrOffCurve ((multiplyWith algorithm k p).run s).1) ∧
      ∀ k, ∃ r, ((multiplyGenerator k).run s).1 = .ok r := by
  have hp : p.WellFormed := hp.sound
  have hq : q.WellFormed := hq.sound
  refine ⟨⟨?_, ?_, ?_⟩, ?_, ?_⟩
  · obtain ⟨r, hr, -⟩ := hp.double
    exact ⟨r, hr⟩
  · obtain ⟨r, hr, -⟩ := hp.add hq
    exact ⟨r, hr⟩
  · obtain ⟨r, hr, -⟩ := hp.sub hq
    exact ⟨r, hr⟩
  · intro κ _ _ algorithm k table htable
    exact multiply_outcome algorithm k hp fun t ht => (htable t ht).exists_isTableOf
  · intro σ s hs
    refine ⟨?_, ?_, ?_⟩
    · exact fun k => (ensures_multiply k hp s hs.sound).1
    · exact fun algorithm k => (ensures_multiplyWith algorithm k hp s hs.sound).1
    · intro k
      have h := yields_multiplyGenerator (σ := σ) invariant_sound (fun _ hc => hc) k
      obtain ⟨r, hr, -⟩ := (h s hs.sound).1
      exact ⟨r, hr⟩

/-- A stray point can be added to the generator and multiplied, but not with the table of the
generator. -/
theorem operations_total_stray :
    Made (.point stray) ∧ Made (.point .generator) ∧ (∃ r, stray.add .generator = .ok r) ∧
      (∃ t, Made (.table t) ∧
        multiply .windowedNaf U256.one stray (some t) = .error foreignTable ∧
        ∃ r, multiply .montgomeryLadder (U512.ofU256 .one) stray (some t) = .ok r) ∧
      ∃ s : State Unit Context, Reachable s.store ∧
        ∀ k, ResultOrOffCurve ((Context.multiply k stray).run s).1 := by
  have hstray : Made (.point stray) := .ofAffine .one .one
  have hgenerator := Point.made_generator
  obtain ⟨⟨-, hadd, -⟩, hmultiply, hcontext⟩ := operations_total hstray hgenerator
  obtain ⟨t, ht, -⟩ := OddMultiples.build_spec (w := 4) (by omega) (by omega)
    Point.denotes_generator basePoint_ne_zero
  have hmade : Made (.table t) := .build hgenerator ht
  have hsome : ∀ u ∈ some t, Made (.table u) := fun u hu => Option.some.inj hu ▸ hmade
  obtain ⟨-, -, -, -, -, hbase, -⟩ := OddMultiples.of_build ht
  have hfor : t.isFor stray = false := by
    rw [OddMultiples.isFor, hbase]
    decide +kernel
  have hmismatch : Mismatch .windowedNaf U256.one stray (some t) :=
    mismatch_iff.mpr ⟨by decide, hfor⟩
  refine ⟨hstray, hgenerator, hadd, ⟨t, hmade, ?_, ?_⟩, ?_⟩
  · exact (hmultiply .windowedNaf U256.one _ hsome).2 hmismatch
  · refine (hmultiply .montgomeryLadder (U512.ofU256 .one) _ hsome).1 fun h => ?_
    cases h.algorithm_eq
  · let s : State Unit Context := ⟨(), [], ⟨.minimal, none, none, {}⟩⟩
    exact ⟨s, reachable_minimal, (hcontext s reachable_minimal).1⟩

end Secp256k1
