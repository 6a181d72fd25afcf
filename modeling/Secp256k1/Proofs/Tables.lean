import Secp256k1.Multiplication.Basic
import Secp256k1.Proofs.Digits
import Secp256k1.Proofs.Points

/-!
Tables of odd multiples, and sums of what is read off them.
-/

namespace Secp256k1

open Point

namespace OddMultiples

/-- A table of a window that may be asked for holds the odd multiples of its base. -/
structure IsTableOf (t : OddMultiples) (P : CurvePoint) : Prop where
  base : t.base.Denotes P
  window_pos : 0 < t.window
  window_le : t.window ≤ 8
  length : t.entries.length = 2 ^ (t.window - 1)
  entry : ∀ i (h : i < t.entries.length), t.entries[i].Denotes ((2 * i + 1) • P)

variable {p step : Point} {P S : CurvePoint}

lemma progression_spec (hs : step.Denotes S) (n : ℕ) (hp : p.Denotes P) :
    ∃ ps, progression step n p = .ok ps ∧ ps.length = n ∧
      ∀ i (h : i < ps.length), ps[i].Denotes (P + (i + 1) • S) := by
  induction n generalizing p P with
  | zero => exact ⟨[], rfl, rfl, fun i h => absurd h (Nat.not_lt_zero i)⟩
  | succ n ih =>
    obtain ⟨next, hadd, hnext⟩ := hp.add hs
    obtain ⟨ps, hps, hlen, hent⟩ := ih hnext
    refine ⟨next :: ps, ?_, by rw [List.length_cons, hlen], ?_⟩
    · unfold progression
      rw [hadd]
      simp only [bind, Except.bind]
      rw [hps]
      rfl
    · intro i hi
      cases i with
      | zero => simpa using hnext
      | succ i =>
        have he := hent i (by simpa using hi)
        rwa [List.getElem_cons_succ, succ_nsmul', ← add_assoc]

/-- What adding the step preserves is preserved by the whole progression. -/
lemma forall_of_progression {Q : Point → Prop} {ps : List Point} {n : ℕ}
    (hstep : ∀ q r, Q q → q.add step = .ok r → Q r) (hp : Q p)
    (h : progression step n p = .ok ps) : ∀ q ∈ ps, Q q := by
  induction n generalizing p ps with
  | zero =>
    obtain rfl := Except.ok.inj h
    simp
  | succ n ih =>
    unfold progression at h
    obtain ⟨next, hnext, h⟩ := exists_of_bind_eq_ok h
    obtain ⟨rest, hrest, h⟩ := exists_of_bind_eq_ok h
    obtain rfl := Except.ok.inj h
    have hQ := hstep p next hp hnext
    exact List.forall_mem_cons.mpr ⟨hQ, ih hQ hrest⟩

/-- The windows that may be asked for. -/
lemma window_eq (w : ℕ) :
    (decide (Parameters.minWindow ≤ w) && decide (w ≤ Parameters.maxWindow)) =
      decide (2 ≤ w ∧ w ≤ 8) := by
  rw [Bool.decide_and, Parameters.minWindow, Parameters.maxWindow]

/-- A window is refused before the point is looked at. -/
lemma build_of_window {w : ℕ} (hw : ¬(2 ≤ w ∧ w ≤ 8)) :
    build p w = .error (.invalidParameter "PrecomputationTable::new"
      "window size must be between 2 and 8") := by
  unfold build requireParameter require
  rw [window_eq, decide_eq_false hw]
  rfl

/-- Infinity is refused before the equation of the curve is looked at. -/
lemma build_of_isInfinity {w : ℕ} (hw : 2 ≤ w ∧ w ≤ 8) (hi : p.isInfinity = true) :
    build p w = .error (.pointAtInfinity "PrecomputationTable::new") := by
  unfold build requireParameter require
  rw [window_eq, decide_eq_true hw, hi]
  rfl

lemma build_of_not_isOnCurve {w : ℕ} (hw : 2 ≤ w ∧ w ≤ 8) (hi : p.isInfinity = false)
    (hc : p.isOnCurve = false) : build p w = .error (.pointNotOnCurve "CurvePoint::validate") := by
  unfold build validate requireParameter requireOnCurve require
  rw [window_eq, decide_eq_true hw, hi, hc]
  rfl

/-- **Building a table** of a finite point on the curve succeeds for every window from 2 to 8. -/
theorem build_spec {w : ℕ} (hw2 : 2 ≤ w) (hw8 : w ≤ 8) (hp : p.Denotes P) (hP0 : P ≠ 0) :
    ∃ t, build p w = .ok t ∧ t.IsTableOf P := by
  have hwin := (window_eq w).trans (decide_eq_true ⟨hw2, hw8⟩)
  have hon : p.isOnCurve = true := hp.isOnCurve
  obtain ⟨twice, hdouble, htwice⟩ := hp.toAffine.double
  obtain ⟨ps, hps, hlen, hent⟩ := progression_spec htwice (1 <<< (w - 1) - 1) hp.toAffine
  have hpos := Nat.two_pow_pos (w - 1)
  refine ⟨⟨p.toAffine, w, p.toAffine :: ps, p.toAffine.fingerprint +
    (ps.getLastD p.toAffine).fingerprint⟩, ?_, ?_⟩
  · unfold build
    simp only [hwin, hp.isInfinity_eq, hP0, validate, hon, requireParameter, requireOnCurve,
      require, hdouble, hps, bind, Except.bind, decide_false]
    rfl
  · refine ⟨hp.toAffine, by simp; omega, hw8, ?_, ?_⟩
    · simp only [List.length_cons, hlen, Nat.one_shiftLeft]
      omega
    · intro i hi
      cases i with
      | zero => simpa using hp.toAffine
      | succ i =>
        have he := hent i (by simpa using hi)
        have hm : (2 * (i + 1) + 1) • P = P + (i + 1) • (P + P) := by
          rw [← two_nsmul, ← mul_nsmul, add_nsmul, one_nsmul, add_comm]
        rwa [List.getElem_cons_succ, hm]

/-- What a table that has been built comes from. -/
lemma of_build {w : ℕ} {t : OddMultiples} (h : build p w = .ok t) :
    2 ≤ w ∧ w ≤ 8 ∧ p.isInfinity = false ∧ p.isOnCurve = true ∧ t.window = w ∧
      t.base = p.toAffine ∧ ∃ twice further, p.toAffine.double = .ok twice ∧
        progression twice (1 <<< (w - 1) - 1) p.toAffine = .ok further ∧
        t.entries = p.toAffine :: further ∧
        t.fingerprint = p.toAffine.fingerprint + (further.getLastD p.toAffine).fingerprint := by
  unfold build at h
  obtain ⟨_, hw, h⟩ := exists_of_bind_eq_ok h
  have hwin := of_require_eq_ok hw
  rw [window_eq, decide_eq_true_iff] at hwin
  split at h
  · cases h
  next hi =>
  obtain ⟨_, hc, h⟩ := exists_of_bind_eq_ok h
  obtain ⟨twice, htwice, h⟩ := exists_of_bind_eq_ok h
  obtain ⟨further, hfurther, h⟩ := exists_of_bind_eq_ok h
  obtain rfl := Except.ok.inj h
  exact ⟨hwin.1, hwin.2, Bool.eq_false_iff.mpr hi, of_require_eq_ok hc, rfl, rfl, twice, further,
    htwice, hfurther, rfl, rfl⟩

/-- A table that was built for a point holds its odd multiples. -/
lemma isTableOf_of_build (hp : p.Denotes P) {w : ℕ} {t : OddMultiples} (h : build p w = .ok t) :
    t.IsTableOf P := by
  obtain ⟨hw2, hw8, hi, -⟩ := of_build h
  have hP : P ≠ 0 := by
    rw [ne_eq, ← hp.isInfinity_iff, hi]
    exact Bool.false_ne_true
  obtain ⟨u, hu, huP⟩ := build_spec hw2 hw8 hp hP
  obtain rfl : u = t := Except.ok.inj (hu.symm.trans h)
  exact huP

/-- Tables are built for points of the curve only. -/
lemma exists_isTableOf_of_build (hp : p.WellFormed) {w : ℕ} {t : OddMultiples}
    (h : build p w = .ok t) : ∃ P, t.IsTableOf P := by
  obtain ⟨-, -, -, hc, -⟩ := of_build h
  obtain ⟨P, hP⟩ := (isOnCurve_iff hp).mp hc
  exact ⟨P, isTableOf_of_build hP h⟩

lemma IsTableOf.two_pow_window {t : OddMultiples} (ht : t.IsTableOf P) :
    2 ^ t.window = 2 * 2 ^ (t.window - 1) := by
  rw [← pow_succ', Nat.sub_add_cancel ht.window_pos]

/-- Every digit of the window selects its multiple. -/
theorem IsTableOf.select {t : OddMultiples} (ht : t.IsTableOf P) {d : Int16}
    (hodd : d.toInt % 2 = 1) (hd : d.toInt.natAbs < 2 ^ t.window) :
    ∃ r, t.select d = .ok r ∧ r.Denotes (d.toInt • P) := by
  have hwin := ht.two_pow_window
  have hi : (d.toInt.natAbs - 1) / 2 < t.entries.length := by
    rw [ht.length]
    omega
  have hi2 : 2 * ((d.toInt.natAbs - 1) / 2) + 1 = d.toInt.natAbs := by omega
  have he := ht.entry _ hi
  rw [hi2] at he
  refine ⟨if d.toInt < 0 then t.entries[(d.toInt.natAbs - 1) / 2].neg else
    t.entries[(d.toInt.natAbs - 1) / 2], ?_, ?_⟩
  · unfold OddMultiples.select
    simp only [hodd, requireParameter, require, List.getElem?_eq_getElem hi, bind, Except.bind]
    rfl
  · split
    · next hneg =>
      have habs : d.toInt • P = -(d.toInt.natAbs • P) := by
        rw [← natCast_zsmul, ← neg_zsmul]
        congr 1
        omega
      rw [habs]
      exact he.neg
    · next hneg =>
      have habs : d.toInt • P = d.toInt.natAbs • P := by
        rw [← natCast_zsmul]
        congr 1
        omega
      rwa [habs]

/-- What an even digit is refused with. -/
def evenDigit : Error :=
  .invalidParameter "PrecomputationTable::select" "digit must be odd"

/-- What an odd digit is refused with whose multiple is not in the table. -/
def digitBeyondWindow : Error :=
  .invalidParameter "PrecomputationTable::select" "digit exceeds the table window"

lemma select_of_even {t : OddMultiples} {d : Int16} (h : d.toInt % 2 = 0) :
    t.select d = .error evenDigit := by
  unfold OddMultiples.select requireParameter require
  simp only [h]
  rfl

lemma IsTableOf.select_of_le {t : OddMultiples} (ht : t.IsTableOf P) {d : Int16}
    (hodd : d.toInt % 2 = 1) (hd : 2 ^ t.window ≤ d.toInt.natAbs) :
    t.select d = .error digitBeyondWindow := by
  have hi : t.entries.length ≤ (d.toInt.natAbs - 1) / 2 := by
    rw [ht.two_pow_window] at hd
    rw [ht.length]
    omega
  unfold OddMultiples.select requireParameter require
  simp only [hodd, List.getElem?_eq_none hi]
  rfl

end OddMultiples

namespace Multiplication

/-- **Evaluating digits** gives the multiple by the integer that they stand for. -/
theorem evaluate_spec {t : OddMultiples} {P : CurvePoint} (ht : t.IsTableOf P) {ds : List Int16}
    {a : ℤ} (hds : SignedDigits.Encodes t.window ds a) :
    ∃ r, evaluate t ds = .ok r ∧ r.Denotes (a • P) := by
  obtain ⟨rfl, hds⟩ := hds
  induction ds with
  | nil =>
    refine ⟨.infinity, rfl, ?_⟩
    rw [SignedDigits.value, zero_zsmul]
    exact denotes_infinity
  | cons d ds ih =>
    rw [List.forall_mem_cons] at hds
    obtain ⟨r, hr, hrP⟩ := ih hds.2
    obtain ⟨twice, hdouble, htwice⟩ := hrP.double
    rw [← two_zsmul, ← mul_zsmul', mul_comm] at htwice
    unfold evaluate
    rw [hr]
    simp only [bind, Except.bind, hdouble]
    rw [SignedDigits.value]
    rcases hds.1 with h0 | ⟨hodd, habs⟩
    · obtain rfl : d = 0 := Int16.toInt_inj.mp h0
      refine ⟨twice, rfl, ?_⟩
      rwa [h0, zero_add]
    · have hd : (d == 0) = false := by
        rw [beq_eq_false_iff_ne]
        rintro rfl
        exact absurd hodd (by decide)
      obtain ⟨m, hm, hmP⟩ := ht.select hodd habs
      obtain ⟨s, hs, hsP⟩ := htwice.add hmP
      rw [hd, hm]
      refine ⟨s, hs, ?_⟩
      rwa [add_comm, add_zsmul]

end Multiplication

end Secp256k1
