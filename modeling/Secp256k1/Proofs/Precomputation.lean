import Secp256k1.Proofs.ScalarAction
import Secp256k1.Proofs.Tables

/-!
What becomes of a request for a table, and what the table answers.

A request is refused for its window, for infinity or for a point off the curve, in that order,
and granted otherwise. The odd multiples of a finite point are finite as far as a table goes,
because the order of the group is a prime far beyond it. A digit is answered if it is odd and
fits the window, and refused otherwise.
-/

namespace Secp256k1

namespace OddMultiples

open Point Engine

variable {p : Point} {P : CurvePoint} {t : OddMultiples} {w : ℕ}

/-! ### Entries -/

lemma system_of_build (h : build p w = .ok t) : ∀ q ∈ t.entries, q.system = .affine := by
  obtain ⟨-, -, -, -, -, -, twice, further, -, hfurther, hentries, -⟩ := of_build h
  rw [hentries]
  refine List.forall_mem_cons.mpr ⟨system_toAffine p, ?_⟩
  exact forall_of_progression (fun _ _ _ h => system_of_add h) (system_toAffine p) hfurther

lemma fingerprint_of_build (h : build p w = .ok t) : ∃ last, t.entries.getLast? = some last ∧
    t.fingerprint = t.base.fingerprint + last.fingerprint := by
  obtain ⟨-, -, -, -, -, hbase, twice, further, -, -, hentries, hfingerprint⟩ := of_build h
  refine ⟨further.getLastD p.toAffine, ?_, ?_⟩
  · rw [hentries, List.getLast?_cons, List.getLastD_eq_getLast?]
  · rw [hfingerprint, hbase]

/-- The multiples stop far below the order of the group. -/
lemma IsTableOf.isInfinity_eq_false (ht : t.IsTableOf P) (hP : P ≠ 0) :
    ∀ q ∈ t.entries, q.isInfinity = false := by
  intro q hq
  obtain ⟨i, hi, rfl⟩ := List.getElem_of_mem hq
  have hlt : 2 * i + 1 < groupOrder := by
    have hle : 2 ^ t.window ≤ 2 ^ 8 := Nat.pow_le_pow_right two_pos ht.window_le
    have hwin := ht.two_pow_window
    rw [ht.length] at hi
    have horder : 2 ^ 8 < groupOrder := by decide
    omega
  rw [← Bool.not_eq_true, (ht.entry i hi).isInfinity_iff, nsmul_eq_zero_iff hP]
  exact Nat.not_dvd_of_pos_of_lt (Nat.succ_pos _) hlt

/-! ### Answers -/

/-- What a table for `P` answers for a digit. -/
inductive Answer (t : OddMultiples) (P : CurvePoint) (d : Int16) : Except Error Point → Prop
  | even (h : d.toInt % 2 = 0) : Answer t P d (.error evenDigit)
  | beyond (hodd : d.toInt % 2 = 1) (h : 2 ^ t.window ≤ d.toInt.natAbs) :
      Answer t P d (.error digitBeyondWindow)
  | multiple {r : Point} (hodd : d.toInt % 2 = 1) (h : d.toInt.natAbs < 2 ^ t.window)
      (hr : r.Denotes (d.toInt • P)) : Answer t P d (.ok r)

namespace Answer

variable {d : Int16} {out : Except Error Point}

lemma eq_of_even (h : Answer t P d out) (he : d.toInt % 2 = 0) : out = .error evenDigit := by
  cases h with
  | even => rfl
  | beyond hodd => omega
  | multiple hodd => omega

lemma eq_of_le (h : Answer t P d out) (hodd : d.toInt % 2 = 1)
    (hle : 2 ^ t.window ≤ d.toInt.natAbs) : out = .error digitBeyondWindow := by
  cases h with
  | even he => omega
  | beyond => rfl
  | multiple _ hlt => omega

lemma exists_of_lt (h : Answer t P d out) (hodd : d.toInt % 2 = 1)
    (hlt : d.toInt.natAbs < 2 ^ t.window) : ∃ r, out = .ok r ∧ r.Denotes (d.toInt • P) := by
  cases h with
  | even he => omega
  | beyond _ hle => omega
  | multiple _ _ hr => exact ⟨_, rfl, hr⟩

end Answer

lemma IsTableOf.answer (ht : t.IsTableOf P) (d : Int16) : Answer t P d (t.select d) := by
  rcases Int.emod_two_eq d.toInt with heven | hodd
  · rw [select_of_even heven]
    exact .even heven
  rcases Nat.lt_or_ge d.toInt.natAbs (2 ^ t.window) with hlt | hle
  · obtain ⟨r, hr, hrP⟩ := ht.select hodd hlt
    rw [hr]
    exact .multiple hodd hlt hrP
  · rw [ht.select_of_le hodd hle]
    exact .beyond hodd hle

/-- What a table has that is built for the window `w` of `p`, which denotes `P`. -/
structure Granted (p : Point) (P : CurvePoint) (w : ℕ) (t : OddMultiples) : Prop where
  base : t.base = p.toAffine
  window : t.window = w
  length : t.entries.length = 2 ^ (w - 1)
  finite : ∀ q ∈ t.entries, q.isInfinity = false
  affine : ∀ q ∈ t.entries, q.system = .affine
  entry : ∀ i (h : i < t.entries.length), t.entries[i].Denotes ((2 * i + 1) • P)
  fingerprint : ∃ last, t.entries.getLast? = some last ∧
    t.fingerprint = t.base.fingerprint + last.fingerprint
  answer : ∀ d, Answer t P d (t.select d)

lemma granted_of_build (hp : p.Denotes P) (hP : P ≠ 0) (h : build p w = .ok t) :
    Granted p P w t := by
  have ht := isTableOf_of_build hp h
  obtain ⟨-, -, -, -, hwindow, hbase, -⟩ := of_build h
  exact ⟨hbase, hwindow, hwindow ▸ ht.length, ht.isInfinity_eq_false hP, system_of_build h,
    ht.entry, fingerprint_of_build h, ht.answer⟩

/-! ### Requests -/

/-- What becomes of a request for a table of `p` with the window `w`. -/
inductive Outcome (p : Point) (w : ℕ) : Except Error OddMultiples → Prop
  | window (hw : ¬(2 ≤ w ∧ w ≤ 8)) :
      Outcome p w (.error (.invalidParameter "PrecomputationTable::new"
        "window size must be between 2 and 8"))
  | infinity (hw : 2 ≤ w ∧ w ≤ 8) (hp : p.Denotes 0) :
      Outcome p w (.error (.pointAtInfinity "PrecomputationTable::new"))
  | offCurve (hw : 2 ≤ w ∧ w ≤ 8) (hp : ∀ P, ¬p.Denotes P) :
      Outcome p w (.error (.pointNotOnCurve "CurvePoint::validate"))
  | granted {P : CurvePoint} {t : OddMultiples} (hw : 2 ≤ w ∧ w ≤ 8) (hp : p.Denotes P)
      (hP : P ≠ 0) (ht : Granted p P w t) : Outcome p w (.ok t)

lemma fst_run_create {σ ω : Type} (p : Point) (w : ℕ) (s : State σ ω) :
    ((create p w).run s).1 = build p w := by
  unfold create
  rw [run_bind, run_lift]
  rcases build p w with e | t
  · rfl
  · rfl

/-- **Tables hold what they promise.** A table is built exactly for a window from 2 to 8 and a
finite point of the curve, and anything else is refused, the window first. It has the odd
multiples of the point, all of them finite and in affine form, and the fingerprints of the base,
as it is stored, and of the last entry added up; and every 16-bit digit has its answer. Telling
of the table changes nothing. -/
theorem outcome_of_build (hp : p.WellFormed) (w : ℕ) :
    Outcome p w (build p w) ∧
      ∀ {σ ω : Type} (s : State σ ω), ((create p w).run s).1 = build p w := by
  refine ⟨?_, fst_run_create p w⟩
  by_cases hw : 2 ≤ w ∧ w ≤ 8
  case neg =>
    rw [build_of_window hw]
    exact .window hw
  rcases hc : p.isOnCurve
  · have hi : p.isInfinity = false := by
      rw [← Bool.not_eq_true]
      intro hi
      obtain rfl := hp.infinity ((isInfinity_iff p).mp hi)
      cases hc
    rw [build_of_not_isOnCurve hw hi hc]
    refine .offCurve hw fun P hP => ?_
    rw [hP.isOnCurve] at hc
    cases hc
  obtain ⟨P, hP⟩ := (isOnCurve_iff hp).mp hc
  by_cases hP0 : P = 0
  · subst hP0
    rw [build_of_isInfinity hw (hP.isInfinity_iff.mpr rfl)]
    exact .infinity hw hP
  · obtain ⟨t, ht, -⟩ := build_spec hw.1 hw.2 hP hP0
    rw [ht]
    exact .granted hw hP hP0 (granted_of_build hP hP0 ht)

/-- The greatest window and the generator in other coordinates. The table answers for -255, and
refuses the least digit, which is even, and 257, which is odd and beyond the window. -/
theorem outcome_of_build_rescaled :
    let p := generator.rescale (.ofWord 2)
    p.WellFormed ∧ p.system = .jacobian ∧ ∃ t, build p 8 = .ok t ∧ t.entries.length = 128 ∧
      (∃ r, t.select (-255) = .ok r ∧ r.Denotes ((-255 : ℤ) • basePoint)) ∧
      t.select (-32768) = .error evenDigit ∧ t.select 257 = .error digitBeyondWindow := by
  intro p
  have hp : p.Denotes basePoint :=
    denotes_generator.rescale (FieldElement.isCanonical_ofWord 2) (by simpa using two_ne_zero_Fp)
  have hout := (outcome_of_build hp.wellFormed 8).1
  refine ⟨hp.wellFormed, by decide +kernel, ?_⟩
  obtain ⟨t, ht, -⟩ := build_spec (w := 8) (by decide) (by decide) hp basePoint_ne_zero
  rw [ht] at hout
  cases hout with
  | @granted P _ _ hP _ hgranted =>
    obtain rfl := hP.unique hp
    have hwindow := hgranted.window
    have hanswer := hgranted.answer
    exact ⟨t, ht, hgranted.length,
      (hanswer (-255)).exists_of_lt (by decide) (hwindow ▸ by decide),
      (hanswer (-32768)).eq_of_even (by decide),
      (hanswer 257).eq_of_le (by decide) (hwindow ▸ by decide)⟩

end OddMultiples

end Secp256k1
