import Secp256k1.Context
import Secp256k1.Proofs.Caches
import Secp256k1.Proofs.Multiples
import Secp256k1.Proofs.Outcomes

/-!
The operations of a context on points of the curve.

Checking a point of the curve succeeds at every level and in every state of the cache, and
multiplication gives the multiple in the group. What the operations do to the context is
covered by the invariants that counting, looking points up and caching points of the curve
leave alone.
-/

namespace Secp256k1.Context

open Engine

variable {σ : Type} {I : Context → Prop} {c : Context} {p : Point} {P : CurvePoint}

/-- The table of the context is the generator's. -/
def Sound (c : Context) : Prop := ∀ t ∈ c.table, t.IsTableOf basePoint

/-- What holds in a context still holds after an operation on points of the curve. -/
structure Invariant (I : Context → Prop) : Prop where
  count : ∀ c (f : Counters → Counters), I c → I { c with counters := f c.counters }
  lookup : ∀ c (t : LookupTable) p, I c → c.cache = some t →
    I { c with cache := some (t.lookup p).2 }
  insert : ∀ c (t t' : LookupTable) es p P, I c → c.cache = some t → Point.Denotes p P →
    t.insert p = .ok (t', es) → I { c with cache := some t' }
  clear : ∀ c, I c → I { c with cache := c.cache.map (·.clear) }

lemma Invariant.and {J : Context → Prop} (hI : Invariant I) (hJ : Invariant J) :
    Invariant fun c => I c ∧ J c where
  count c f h := ⟨hI.count c f h.1, hJ.count c f h.2⟩
  lookup c t p h ht := ⟨hI.lookup c t p h.1 ht, hJ.lookup c t p h.2 ht⟩
  insert c t t' es p P h ht hp hi :=
    ⟨hI.insert c t t' es p P h.1 ht hp hi, hJ.insert c t t' es p P h.2 ht hp hi⟩
  clear c h := ⟨hI.clear c h.1, hJ.clear c h.2⟩

/-- Neither the settings nor the table of a context ever change. -/
lemma invariant_fixed (f : Config → Option OddMultiples → Prop) :
    Invariant fun c => f c.config c.table where
  count _ _ h := h
  lookup _ _ _ h _ := h
  insert _ _ _ _ _ _ h _ _ _ := h
  clear _ h := h

lemma invariant_sound : Invariant Sound := invariant_fixed fun _ t => ∀ u ∈ t, u.IsTableOf basePoint

/-! ### Runs of the basic operations -/

lemma ensures_count (hI : Invariant I) (f : Counters → Counters) :
    Ensures I (count f : Session σ Unit) fun r => r = .ok () :=
  ensures_update fun c hc => hI.count c f hc

lemma run_cachePoint (p : Point) (s : State σ Context) :
    (cachePoint p).run s =
      match s.store.cache with
      | none => (.error (.invalidParameter "EccContext::cache_point" "lookup table disabled"), s)
      | some t =>
        match t.insert p with
        | .ok (u, es) =>
          (.ok (), { s with
            store := { s.store with cache := some u }
            events := es.reverse ++ s.events })
        | .error e => (.error e, s) := by
  unfold cachePoint
  rw [run_stored_bind]
  rcases s.store.cache with _ | t
  · rfl
  · dsimp only
    rcases t.insert p with e | ⟨u, es⟩
    · rw [run_error_bind]
    · rw [run_ok_bind]
      dsimp only
      rw [run_update_bind, run_report]

lemma run_cachedPoint (p : Point) (s : State σ Context) :
    ((cachedPoint p).run s).2.store =
      match s.store.cache with
      | none => s.store
      | some t =>
        match (t.lookup p).1 with
        | .ok _ => { s.store with
            cache := some (t.lookup p).2
            counters := { s.store.counters with cacheHits := s.store.counters.cacheHits + 1 } }
        | .error _ => { s.store with
            cache := some (t.lookup p).2
            counters :=
              { s.store.counters with cacheMisses := s.store.counters.cacheMisses + 1 } } := by
  unfold cachedPoint
  rw [run_stored_bind]
  rcases s.store.cache with _ | t
  · rfl
  · dsimp only
    rw [run_update_bind]
    rcases (t.lookup p).1 with e | q
    · rfl
    · rfl

lemma run_remember (p : Point) (s : State σ Context) :
    (remember p).run s =
      match s.store.cache with
      | none => (.ok (), s)
      | some t =>
        match t.insert p with
        | .ok (u, es) =>
          (.ok (), { s with
            store := { s.store with cache := some u }
            events := es.reverse ++ s.events })
        | .error e =>
          if e.isCacheMiss then (.ok (), { s with events := .cacheNotUpdated e :: s.events })
          else (.error e, s) := by
  unfold remember
  rw [run_stored_bind]
  rcases hc : s.store.cache with _ | t
  · rfl
  · simp only [Option.isSome_some, if_true]
    rw [run_tryCatch, run_cachePoint, hc]
    dsimp only
    rcases t.insert p with e | ⟨u, es⟩
    · dsimp only
      split <;> rfl
    · rfl

lemma keeps_cachedPoint (hI : Invariant I) (p : Point) :
    Keeps I (cachedPoint p : Session σ Point) := by
  intro s hs
  refine ⟨trivial, ?_⟩
  rw [run_cachedPoint]
  rcases hc : s.store.cache with _ | t
  · exact hs
  · simp only
    have hl := hI.lookup _ t p hs hc
    split
    · exact hI.count _ (fun n => { n with cacheHits := n.cacheHits + 1 }) hl
    · exact hI.count _ (fun n => { n with cacheMisses := n.cacheMisses + 1 }) hl

lemma keeps_cachePoint_of_insert (h : ∀ c t u es, I c → c.cache = some t →
    t.insert p = .ok (u, es) → I { c with cache := some u }) :
    Keeps I (cachePoint p : Session σ Unit) := by
  intro s hs
  refine ⟨trivial, ?_⟩
  rw [run_cachePoint]
  rcases hc : s.store.cache with _ | t
  · exact hs
  · rcases hi : t.insert p with e | ⟨u, es⟩
    · simp only [hi]
      exact hs
    · simp only [hi]
      exact h _ t u es hs hc hi

lemma keeps_cachePoint (hI : Invariant I) (hp : p.Denotes P) :
    Keeps I (cachePoint p : Session σ Unit) :=
  keeps_cachePoint_of_insert fun c t u es hc ht hi => hI.insert c t u es p P hc ht hp hi

/-- A finite point of the curve is remembered if there is room, and no failure shows. -/
lemma ensures_remember (hI : Invariant I) (hp : p.Denotes P) (hP0 : P ≠ 0) :
    Ensures I (remember p : Session σ Unit) fun r => r = .ok () := by
  intro s hs
  rw [run_remember]
  rcases hc : s.store.cache with _ | t
  · exact ⟨rfl, hs⟩
  · rcases hi : t.insert p with e | ⟨u, es⟩
    · have hinf : p.isInfinity = false := by rw [hp.isInfinity_eq, decide_eq_false hP0]
      obtain rfl := LookupTable.insert_eq_error hinf hi
      simp only [hi]
      exact ⟨rfl, hs⟩
    · simp only [hi]
      exact ⟨trivial, hI.insert _ t u es p P hs hc hp hi⟩

/-! ### Validation -/

/-- **A point of the curve passes** at every level, cached or not. -/
theorem ensures_validatePoint (hI : Invariant I) (hp : p.Denotes P) :
    Ensures I (validatePoint p : Session σ Unit) fun r => r = .ok () := by
  have hon : p.isOnCurve = true := hp.isOnCurve
  have hona : p.toAffine.isOnCurve = true := hp.toAffine.isOnCurve
  unfold validatePoint
  refine ensures_stored_bind ?_
  intro c _
  split
  · exact ensures_pure rfl
  · refine ensures_lift ?_
    rw [Point.validate, requireOnCurve, require, if_pos hon]
  · by_cases hP0 : P = 0
    · rw [if_pos (hp.isInfinity_iff.mpr hP0)]
      exact ensures_pure rfl
    · rw [if_neg (hp.isInfinity_iff.not.mpr hP0)]
      split
      · exact ensures_count hI _
      · refine (ensures_count hI _).seq ?_
        refine ensures_lift_ok (a := ()) ?_ (ensures_remember hI hp.toAffine hP0)
        rw [Point.validate, requireOnCurve, require, if_pos hona]

lemma ensures_validatePublicKey (hI : Invariant I) (hp : p.Denotes P) :
    Ensures I (validatePublicKey p : Session σ Unit) fun r => r =
      if P = 0 then .error (.pointAtInfinity "EccContext::validate_public_key") else .ok () := by
  unfold validatePublicKey
  by_cases hP0 : P = 0
  · rw [if_pos (hp.isInfinity_iff.mpr hP0), if_pos hP0]
    exact ensures_throw rfl
  · rw [if_neg (hp.isInfinity_iff.not.mpr hP0), if_neg hP0]
    exact ensures_validatePoint hI hp

/-- Whatever the outcome, checking a point changes the cache by points of the curve only. -/
theorem keeps_validatePoint (hI : Invariant I) (hp : p.WellFormed) :
    Keeps I (validatePoint p : Session σ Unit) := by
  unfold validatePoint
  refine keeps_stored.bind ?_
  intro c
  split
  · exact keeps_pure ()
  · exact keeps_lift _
  · split
    · exact keeps_pure ()
    · next hinf =>
      split
      · exact (ensures_count hI _).keeps
      · refine Keeps.bind (ensures_count hI _).keeps ?_
        rintro ⟨⟩
        rcases hv : p.toAffine.validate with e | ⟨⟨⟩⟩
        · exact ensures_lift_error rfl trivial
        · refine ensures_lift_ok rfl ?_
          have hon : p.toAffine.isOnCurve = true := of_require_eq_ok hv
          obtain ⟨P, hP⟩ := (Point.isOnCurve_iff hp.toAffine).mp hon
          have hP0 : P ≠ 0 := by
            rwa [ne_eq, ← hP.isInfinity_iff, hp.isInfinity_toAffine]
          exact (ensures_remember hI hP hP0).keeps

lemma keeps_validatePublicKey (hI : Invariant I) (hp : p.WellFormed) :
    Keeps I (validatePublicKey p : Session σ Unit) := by
  unfold validatePublicKey
  split
  · exact keeps_throw _
  · exact keeps_validatePoint hI hp

/-! ### Multiplication -/

lemma mem_tableFor_iff {t : OddMultiples} : t ∈ c.tableFor p ↔ t ∈ c.table ∧ t.isFor p = true := by
  rw [Context.tableFor, Option.mem_def, Option.mem_def, Option.filter_eq_some_iff]

lemma Sound.tableFor (hc : c.Sound) (hp : p.Denotes P) : ∀ t ∈ c.tableFor p, t.IsTableOf P := by
  intro t ht
  obtain ⟨ht, hfor⟩ := mem_tableFor_iff.mp ht
  have hb := hc t ht
  obtain rfl := (hb.base.equals_iff hp).mp hfor
  exact hb

/-- Telling of a missing table does not change the outcome. -/
lemma ensures_perform {κ : Type} [BitString κ] {algorithm : Algorithm} {k : κ}
    {table : Option OddMultiples} {Q : Except Error Point → Prop}
    (h : Q (Multiplication.multiply algorithm k p table)) :
    Ensures I (Multiplication.perform algorithm k p table : Session σ Point) Q := by
  unfold Multiplication.perform
  split
  · exact (ensures_report _).seq (ensures_lift h)
  · exact ensures_lift h

lemma keeps_perform {κ : Type} [BitString κ] (algorithm : Algorithm) (k : κ) (p : Point)
    (table : Option OddMultiples) :
    Keeps I (Multiplication.perform algorithm k p table : Session σ Point) :=
  ensures_perform trivial

lemma yields_perform {κ : Type} [BitString κ] [LawfulBitString κ] (algorithm : Algorithm) {k : κ}
    (hk : BitString.bitLength k < 512) (hp : p.Denotes P) {table : Option OddMultiples}
    (ht : ∀ t ∈ table, t.IsTableOf P) :
    Yields I (Multiplication.perform algorithm k p table : Session σ Point) fun r =>
      r.Denotes (LawfulBitString.toNat k • P) :=
  ensures_perform (Multiplication.multiply_spec algorithm hk hp ht)

/-- **Multiplying a point of the curve** gives the multiple, by every algorithm. -/
theorem yields_multiplyWith (hI : Invariant I) (hS : ∀ c, I c → c.Sound) (algorithm : Algorithm)
    (k : U256) (hp : p.Denotes P) :
    Yields I (multiplyWith algorithm k p : Session σ Point) fun r =>
      r.Denotes (k.toNat • P) := by
  unfold multiplyWith
  refine (ensures_validatePoint hI hp).seq ?_
  refine (ensures_count hI _).seq ?_
  refine ensures_stored_bind ?_
  intro c hc
  exact yields_perform algorithm (U256.bitLength_lt k) hp ((hS c hc).tableFor hp)

theorem yields_multiply (hI : Invariant I) (hS : ∀ c, I c → c.Sound) (k : U256)
    (hp : p.Denotes P) :
    Yields I (multiply k p : Session σ Point) fun r => r.Denotes (k.toNat • P) := by
  unfold multiply
  refine ensures_stored_bind ?_
  intro c _
  exact yields_multiplyWith hI hS _ k hp

theorem yields_multiplyGenerator (hI : Invariant I) (hS : ∀ c, I c → c.Sound) (k : U256) :
    Yields I (multiplyGenerator k : Session σ Point) fun r => r.Denotes (k.toNat • basePoint) :=
  yields_multiply hI hS k Point.denotes_generator

lemma keeps_multiplyWith (hI : Invariant I) (algorithm : Algorithm) (k : U256)
    (hp : p.WellFormed) : Keeps I (multiplyWith algorithm k p : Session σ Point) := by
  unfold multiplyWith
  refine (keeps_validatePoint hI hp).bind fun _ => ?_
  refine Keeps.bind (ensures_count hI _).keeps fun _ => ?_
  exact keeps_stored.bind fun c => keeps_perform _ _ _ _

lemma keeps_multiply (hI : Invariant I) (k : U256) (hp : p.WellFormed) :
    Keeps I (multiply k p : Session σ Point) := by
  unfold multiply
  exact keeps_stored.bind fun c => keeps_multiplyWith hI _ k hp

/-! ### Secret scalars -/

variable [RandomSource σ]

lemma keeps_performBlinded (algorithm : Algorithm) (k : U256) (p : Point) :
    Keeps I (Multiplication.performBlinded algorithm k p : Session σ Point) := by
  unfold Multiplication.performBlinded
  refine (keeps_nonzeroWord _).bind fun r => ?_
  exact (keeps_report _).bind fun _ => keeps_perform _ _ _ _

lemma returns_performBlinded (algorithm : Algorithm) (k : U256) (hp : p.Denotes P) :
    Returns I (Multiplication.performBlinded algorithm k p : Session σ Point) fun r =>
      r.Denotes (k.toNat • P) := by
  unfold Multiplication.performBlinded
  refine (keeps_nonzeroWord _).returns_bind fun r => ?_
  refine (keeps_report _).returns_bind fun _ => ?_
  have ht : ∀ t ∈ (none : Option OddMultiples), t.IsTableOf P := fun t ht => by cases ht
  have h := yields_perform (σ := σ) (I := I) algorithm (k.bitLength_blind_lt r) hp ht
  have hb : LawfulBitString.toNat (k.blind r) • P = k.toNat • P := k.blind_smul r P
  rw [hb] at h
  exact h.returns

lemma keeps_randomize (p : Point) : Keeps I (p.randomize : Session σ Point) := by
  unfold Point.randomize
  split
  · exact keeps_pure p
  · exact returns_randomMask.keeps.bind fun _ => keeps_pure _

lemma returns_randomize (hp : p.Denotes P) :
    Returns I (p.randomize : Session σ Point) fun r => r.Denotes P := by
  unfold Point.randomize
  split
  · exact returns_pure hp
  · refine returns_randomMask.bind ?_
    rintro mask ⟨hm, hm0⟩
    exact returns_pure (hp.rescale hm ((Point.isZero_eq_false_iff hm).mp hm0))

/-- **Multiplying by a secret scalar** gives the multiple under every protection, if the source
of randomness does not fail. -/
theorem returns_multiplySecret (hI : Invariant I) (hS : ∀ c, I c → c.Sound) (k : Scalar)
    (hp : p.Denotes P) :
    Returns I (multiplySecret k p : Session σ Point) fun r =>
      r.Denotes (k.value.toNat • P) := by
  unfold multiplySecret
  refine (ensures_validatePoint hI hp).keeps.returns_bind fun _ => ?_
  refine (ensures_count hI _).keeps.returns_bind fun _ => ?_
  refine Returns.bind (P := I) (Yields.returns ensures_stored) ?_
  intro c hc
  refine (keeps_report _).returns_bind fun _ => ?_
  split
  · exact (yields_perform _ (U256.bitLength_lt k.value) hp ((hS c hc).tableFor hp)).returns
  · obtain ⟨r, hr, hrP⟩ := Multiplication.montgomeryLadder_spec k.value hp
    rw [hr]
    exact Yields.returns (ensures_lift ⟨r, rfl, hrP⟩)
  · exact returns_performBlinded _ _ hp
  · exact (returns_randomize hp).bind fun r hr => returns_performBlinded _ _ hr

lemma keeps_multiplySecret (hI : Invariant I) (k : Scalar) (hp : p.WellFormed) :
    Keeps I (multiplySecret k p : Session σ Point) := by
  unfold multiplySecret
  refine (keeps_validatePoint hI hp).bind fun _ => ?_
  refine Keeps.bind (ensures_count hI _).keeps fun _ => ?_
  refine keeps_stored.bind fun c => ?_
  refine (keeps_report _).bind fun _ => ?_
  split
  · exact keeps_perform _ _ _ _
  · exact keeps_lift _
  · exact keeps_performBlinded _ _ _
  · exact (keeps_randomize p).bind fun r => keeps_performBlinded _ _ _

end Secp256k1.Context
