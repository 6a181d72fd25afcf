import Secp256k1.Engine.Tape
import Secp256k1.Proofs.Verification

/-!
Which points a strict context trusts.

Under strict validation a cached point is taken for valid. Validation itself caches points of
the curve only, but a point may also be put into the cache by hand, and that is not checked. As
long as only points of the curve are put there, strict validation decides as a check of the
equation does; after that it also accepts what has been put there.
-/

namespace Secp256k1.Context

open Engine

variable {σ : Type} {c : Context} {p : Point}

/-! ### One validation -/

/-- What strict validation says of a point, and of its affine form. -/
def strictVerdict (c : Context) (p : Point) : Except Error Unit :=
  if p.isOnCurve ∨ c.isCached p then .ok () else .error (.pointNotOnCurve "CurvePoint::validate")

lemma isOnCurve_of_isInfinity (h : p.isInfinity = true) : p.isOnCurve = true := by
  rw [Point.isOnCurve, h, Bool.true_or]

lemma isOnCurve_toAffine (hp : p.WellFormed) : p.toAffine.isOnCurve = p.isOnCurve := by
  rw [Bool.eq_iff_iff, Point.isOnCurve_iff hp.toAffine, Point.isOnCurve_iff hp]
  exact exists_congr fun P => Point.denotes_toAffine_iff hp

lemma validate_eq (p : Point) : p.validate =
    if p.isOnCurve = true then .ok () else .error (.pointNotOnCurve "CurvePoint::validate") := rfl

/-- **Strict validation accepts** the points of the curve and the cached points. -/
theorem validatePoint_of_strict (hp : p.WellFormed) (s : State σ Context)
    (hs : s.store.config.validation = .strict) :
    ((validatePoint p).run s).1 = s.store.strictVerdict p := by
  unfold strictVerdict
  by_cases hc : p.isOnCurve = true
  · obtain ⟨P, hP⟩ := (Point.isOnCurve_iff hp).mp hc
    rw [if_pos (.inl hc)]
    exact (ensures_validatePoint (invariant_fixed fun _ _ => True) hP s trivial).1
  have hi : ¬p.isInfinity = true := mt isOnCurve_of_isInfinity hc
  unfold validatePoint
  rw [run_stored_bind, hs]
  dsimp only
  rw [if_neg hi]
  by_cases hcached : s.store.isCached p = true
  · rw [if_pos hcached, if_pos (.inr hcached)]
    rfl
  · rw [if_neg hcached, if_neg (not_or.mpr ⟨hc, hcached⟩)]
    unfold countMiss count
    rw [run_update_bind]
    have hv : p.toAffine.validate = .error (.pointNotOnCurve "CurvePoint::validate") := by
      rw [validate_eq, isOnCurve_toAffine hp, if_neg hc]
    rw [hv, run_error_bind]

/-! ### The cache -/

/-- Every point that the cache holds is on the curve. -/
def Trustworthy (c : Context) : Prop :=
  ∀ t ∈ c.cache, t.Regular ∧ ∀ q, t.Stores q → q.isOnCurve = true

lemma invariant_trustworthy : Invariant Trustworthy where
  count _ _ h := h
  lookup c t p h ht := by
    rintro _ ⟨⟩
    obtain ⟨hreg, hon⟩ := h t ht
    have hs := fun q => (t.stores_lookup p q).mp
    exact ⟨hreg.of_stores hs, fun q hq => hon q (hs q hq)⟩
  insert c t t' es p P h ht hp hi := by
    rintro _ ⟨⟩
    obtain ⟨hreg, hon⟩ := h t ht
    refine ⟨hreg.insert hp.wellFormed hi, fun q hq => ?_⟩
    rcases ((hreg.stores_insert hp.wellFormed hi).2 q).mp hq with hq | rfl
    · exact hon q hq
    · exact hp.toAffine.isOnCurve
  clear c h := by
    intro t ht
    obtain ⟨u, -, rfl⟩ := Option.mem_map.mp ht
    exact ⟨⟨fun q hq => absurd hq (u.not_stores_clear q),
      fun q hq => absurd hq (u.not_stores_clear q)⟩,
      fun q hq => absurd hq (u.not_stores_clear q)⟩

lemma Trustworthy.isOnCurve_of_isCached (h : c.Trustworthy) (hp : p.WellFormed)
    (hc : c.isCached p = true) : p.isOnCurve = true := by
  unfold isCached at hc
  obtain ⟨t, ht, hcontains⟩ := Option.any_eq_true _ _ |>.mp hc
  obtain ⟨hreg, hon⟩ := h t ht
  unfold LookupTable.contains LookupTable.find? at hcontains
  split at hcontains
  · cases hcontains
  · next hi =>
    split at hcontains
    · next i slot hs =>
      obtain ⟨hslot, hpoint⟩ := hreg.search_occupied hp (Bool.eq_false_iff.mpr hi) hs
      rw [← isOnCurve_toAffine hp]
      exact hon _ ⟨i, slot, hslot, hpoint⟩
    · cases hcontains

lemma Trustworthy.strictVerdict_eq (h : c.Trustworthy) (hp : p.WellFormed) :
    c.strictVerdict p = p.validate := by
  rw [strictVerdict, validate_eq]
  exact if_congr (or_iff_left_of_imp (h.isOnCurve_of_isCached hp)) rfl rfl

/-- **The cache is trustworthy** as long as only points of the curve are put there by hand. -/
theorem trustworthy_of_reachableBy (h : ReachableBy Call.Careful c) : c.Trustworthy := by
  induction h with
  | create config s h =>
    intro t ht
    obtain ⟨n, hn⟩ := (isNew_of_create h).cache t ht
    have hempty := LookupTable.not_stores_of_withCapacity hn
    exact ⟨⟨fun q hq => absurd hq (hempty q), fun q hq => absurd hq (hempty q)⟩,
      fun q hq => absurd hq (hempty q)⟩
  | call call hw ha s _ ih =>
    refine (Call.keeps invariant_trustworthy call hw ?_ s ih).2
    rintro p rfl
    obtain ⟨P, hP⟩ := (Point.isOnCurve_iff (hw p (by simp [Call.points]))).mp (ha p rfl)
    exact keeps_cachePoint invariant_trustworthy hP

/-! ### What is refused -/

/-- A strict context with a trustworthy cache. -/
def Guarded (c : Context) : Prop := c.Trustworthy ∧ c.config.validation = .strict

lemma invariant_guarded : Invariant Guarded :=
  invariant_trustworthy.and (invariant_fixed fun config _ => config.validation = .strict)

lemma ensures_validatePoint_of_guarded (hp : p.WellFormed) :
    Ensures Guarded (validatePoint p : Session σ Unit) fun r => r = p.validate := by
  intro s hs
  refine ⟨?_, (keeps_validatePoint invariant_guarded hp s hs).2⟩
  rw [validatePoint_of_strict hp s hs.2, hs.1.strictVerdict_eq hp]

/-- The outcome of whatever is asked of a point off the curve. -/
def Refuses {α : Type} (x : Session σ α) : Prop :=
  Ensures Guarded x fun r => r = .error (.pointNotOnCurve "CurvePoint::validate")

section Refusals

variable (hp : p.WellFormed) (hc : p.isOnCurve = false)

include hp hc

lemma refuses_validatePoint : Refuses (validatePoint p : Session σ Unit) := by
  refine (ensures_validatePoint_of_guarded hp).mono ?_
  rintro r rfl
  rw [validate_eq, if_neg (Bool.eq_false_iff.mp hc)]

lemma refuses_multiplyWith (algorithm : Algorithm) (k : U256) :
    Refuses (multiplyWith algorithm k p : Session σ Point) :=
  (refuses_validatePoint hp hc).bind_error

lemma refuses_multiply (k : U256) : Refuses (multiply k p : Session σ Point) :=
  ensures_stored_bind fun _ _ => refuses_multiplyWith hp hc _ k

lemma refuses_multiplySecret [RandomSource σ] (k : Scalar) :
    Refuses (multiplySecret k p : Session σ Point) :=
  (refuses_validatePoint hp hc).bind_error

lemma refuses_verify (digest : Ecdsa.Digest) {g : Signature} (hg : g.InRange) :
    Refuses (Ecdsa.verify p digest g : Session σ Unit) := by
  have hi : ¬p.isInfinity = true := mt isOnCurve_of_isInfinity (Bool.eq_false_iff.mp hc)
  unfold Ecdsa.verify
  refine (ensures_count invariant_guarded _).seq ?_
  refine ensures_lift_ok (Signature.validate_of_inRange hg) ?_
  unfold validatePublicKey
  rw [if_neg hi]
  exact (refuses_validatePoint hp hc).bind_error

end Refusals

/-! ### Strict contexts -/

/-- **What a strict context trusts.** In any state it accepts the points of the curve and the
cached points. If all points that have been put into the cache by hand are on the curve, then so
is everything that the cache holds: the context accepts what a check of the equation accepts,
and refuses to work on any other point. -/
theorem strict_context_trusts [RandomSource σ] (s : State σ Context)
    (hstrict : s.store.config.validation = .strict) :
    (∀ p : Point, p.WellFormed → (((validatePoint p).run s).1 = .ok () ↔
      p.isOnCurve = true ∨ s.store.isCached p = true)) ∧
    (ReachableBy Call.Careful s.store →
      (∀ t ∈ s.store.cache, ∀ q, t.Stores q → q.isOnCurve = true) ∧
      ∀ p : Point, p.WellFormed →
        ((validatePoint p).run s).1 = p.validate ∧
        (p.isOnCurve = false →
          (∀ k, ((multiply k p).run s).1 = .error (.pointNotOnCurve "CurvePoint::validate")) ∧
          (∀ algorithm k, ((multiplyWith algorithm k p).run s).1 =
            .error (.pointNotOnCurve "CurvePoint::validate")) ∧
          (∀ d, ((multiplySecret d p).run s).1 =
            .error (.pointNotOnCurve "CurvePoint::validate")) ∧
          ∀ digest g, Signature.InRange g → ((Ecdsa.verify p digest g).run s).1 =
            .error (.pointNotOnCurve "CurvePoint::validate"))) := by
  refine ⟨?_, ?_⟩
  · intro p hp
    rw [validatePoint_of_strict hp s hstrict, strictVerdict]
    split
    · next h => exact iff_of_true rfl h
    · next h => exact iff_of_false (fun e => by cases e) h
  · intro hcareful
    have hs : Guarded s.store := ⟨trustworthy_of_reachableBy hcareful, hstrict⟩
    refine ⟨fun t ht => (hs.1 t ht).2, fun p hp => ⟨?_, fun hc => ⟨?_, ?_, ?_, ?_⟩⟩⟩
    · exact (ensures_validatePoint_of_guarded hp s hs).1
    · exact fun k => (refuses_multiply hp hc k s hs).1
    · exact fun algorithm k => (refuses_multiplyWith hp hc algorithm k s hs).1
    · exact fun d => (refuses_multiplySecret hp hc d s hs).1
    · exact fun digest g hg => (refuses_verify hp hc digest hg s hs).1

/-- The settings of a strict context with room for one point. -/
def oneSlot : Config := { Config.minimal with validation := .strict, cacheCapacity := some 1 }

/-- A new strict context with room for one point. -/
def fresh : Context := ⟨oneSlot, none, some ⟨#[none], 0, 0, 0⟩, {}⟩

lemma create_oneSlot :
    ((create oneSlot).run (⟨(), [], ()⟩ : State Unit Unit)).1 = .ok fresh := by
  have h : LookupTable.withCapacity 1 = .ok ⟨#[none], 0, 0, 0⟩ := by
    have hsize : LookupTable.leastPowerOfTwo 1 = 1 := rfl
    unfold LookupTable.withCapacity
    rw [hsize]
    rfl
  have hv : oneSlot.validate = .ok () := by decide
  have hw : oneSlot.windowSize = none := rfl
  have hc : oneSlot.cacheCapacity = some 1 := rfl
  have hn : (1 : UInt64).toNat = 1 := rfl
  unfold create LookupTable.create
  rw [hv, hw, hc, Option.mapM_none, Option.mapM_some, hn, h]
  rfl

lemma reachableBy_fresh {allowed : Call → Prop} : ReachableBy allowed fresh :=
  .create oneSlot _ create_oneSlot

/-- A finite point that is not on the curve. -/
def stray : Point := .ofAffine .one .one

lemma wellFormed_stray : stray.WellFormed :=
  Point.wellFormed_ofAffine FieldElement.isCanonical_one FieldElement.isCanonical_one

lemma isOnCurve_stray : stray.isOnCurve = false := by decide +kernel

/-- A new strict context accepts the generator and refuses to work on a stray point. -/
theorem strict_context_trusts_fresh :
    let s : State Tape Context := ⟨⟨#[], .zero, 0⟩, [], fresh⟩
    s.store.config.validation = .strict ∧ ((validatePoint .generator).run s).1 = .ok () ∧
      ((validatePoint stray).run s).1 = .error (.pointNotOnCurve "CurvePoint::validate") ∧
      ∀ k, ((multiply k stray).run s).1 = .error (.pointNotOnCurve "CurvePoint::validate") := by
  intro s
  have h := strict_context_trusts s rfl
  have hG : Point.generator.isOnCurve = true := Point.denotes_generator.isOnCurve
  obtain ⟨hv, hrefused⟩ := (h.2 reachableBy_fresh).2 stray wellFormed_stray
  have hvalidate : stray.validate = .error (.pointNotOnCurve "CurvePoint::validate") := by
    rw [validate_eq, isOnCurve_stray, if_neg Bool.false_ne_true]
  refine ⟨rfl, ?_, hv.trans hvalidate, (hrefused isOnCurve_stray).1⟩
  exact (h.1 .generator Point.denotes_generator.wellFormed).mpr (.inl hG)

/-- A strict context accepts a point off the curve that has been put into its cache. -/
theorem strict_context_trusts_stray :
    ∃ s : State Tape Context, Reachable s.store ∧ s.store.config.validation = .strict ∧
      stray.WellFormed ∧ stray.isOnCurve = false ∧
      ∃ t ∈ s.store.cache, t.Stores stray ∧ ((validatePoint stray).run s).1 = .ok () := by
  let s : State Tape Context := ⟨⟨#[], .zero, 0⟩, [], fresh⟩
  let s' := ((Call.perform (.cachePoint stray)).run s).2
  have hw : (Call.cachePoint stray).WellFormed := by
    intro p hp
    rw [List.mem_singleton.mp hp]
    exact wellFormed_stray
  have hcached : s'.store.isCached stray = true := by decide +kernel
  have hcache : s'.store.cache = some ⟨#[some ⟨stray, stray.hash, 0⟩], 1, 0, 0⟩ := by rfl
  refine ⟨s', .call _ hw trivial s reachableBy_fresh, rfl, wellFormed_stray, isOnCurve_stray,
    _, hcache, ⟨0, _, rfl, rfl⟩, ?_⟩
  rw [validatePoint_of_strict wellFormed_stray s' rfl, strictVerdict, if_pos (.inr hcached)]

end Secp256k1.Context
