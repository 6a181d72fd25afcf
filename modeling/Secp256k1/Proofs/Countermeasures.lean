import Secp256k1.Engine.Tape
import Secp256k1.Proofs.Histories
import Secp256k1.Proofs.Steps
import Secp256k1.Proofs.Strategies

/-!
Countermeasures never change a result.

Whatever hides a secret scalar, the outcome is the affine form of its multiple, or a failure for
lack of randomness. Which of the two it is depends on the draws alone.
-/

namespace Secp256k1

open Engine Context Multiplication

variable {σ ω : Type} {I : ω → Prop} {p : Point} {P : CurvePoint} {k : U256} {r : Point}

/-! ### What draws nothing -/

namespace Context

lemma drawsNothing_count (f : Counters → Counters) : DrawsNothing (count f : Session σ Unit) :=
  drawsNothing_update _

lemma drawsNothing_cachePoint (p : Point) : DrawsNothing (cachePoint p : Session σ Unit) := by
  unfold cachePoint
  refine drawsNothing_stored.bind fun c => ?_
  split
  · exact drawsNothing_throw _
  · refine (drawsNothing_lift _).bind fun t => ?_
    exact (drawsNothing_update _).bind fun _ => drawsNothing_report _

lemma drawsNothing_remember (p : Point) : DrawsNothing (remember p : Session σ Unit) := by
  unfold remember
  refine drawsNothing_stored.bind fun c => ?_
  split
  · refine (drawsNothing_cachePoint p).tryCatch fun e => ?_
    split
    · exact drawsNothing_report _
    · exact drawsNothing_throw _
  · exact drawsNothing_pure _

lemma drawsNothing_validatePoint (p : Point) :
    DrawsNothing (validatePoint p : Session σ Unit) := by
  unfold validatePoint
  refine drawsNothing_stored.bind fun c => ?_
  split
  · exact drawsNothing_pure _
  · exact drawsNothing_lift _
  · split
    · exact drawsNothing_pure _
    · split
      · exact drawsNothing_count _
      · refine (drawsNothing_count _).bind fun _ => ?_
        exact (drawsNothing_lift _).bind fun _ => drawsNothing_remember _

lemma drawsNothing_perform {κ : Type} [BitString κ] (algorithm : Algorithm) (k : κ) (p : Point)
    (table : Option OddMultiples) :
    DrawsNothing (perform algorithm k p table : Engine σ ω Point) := by
  unfold perform
  split
  · exact (drawsNothing_report _).bind fun _ => drawsNothing_lift _
  · exact drawsNothing_lift _

end Context

lemma fst_run_perform {κ : Type} [BitString κ] (algorithm : Algorithm) (k : κ) (p : Point)
    (table : Option OddMultiples) (s : State σ ω) :
    ((perform algorithm k p table).run s).1 = multiply algorithm k p table := by
  unfold perform
  split <;> rfl

lemma follows_perform {κ : Type} [BitString κ] {algorithm : Algorithm} {k : κ}
    {table : Option OddMultiples} (h : multiply algorithm k p table = .ok r) :
    Follows I (perform algorithm k p table : Engine σ ω Point) (give r) := by
  unfold perform
  split
  · exact (follows_report _).seq (follows_lift h)
  · exact follows_lift h

/-! ### The draws -/

/-- The result, unless something was lacking: then a failed computation. -/
def GivesUnless (lacking : Prop) (r : Point) (out : Except Error Point) : Prop :=
  ¬lacking ∧ out = .ok r ∨ lacking ∧ ∃ site why, out = .error (.computationFailed site why)

lemma GivesUnless.eq_ok {lacking : Prop} {out : Except Error Point} (h : GivesUnless lacking r out)
    (hl : ¬lacking) : out = .ok r := (h.resolve_right fun h => hl h.1).2

/-- What draws decide is given unless they fail. -/
lemma Engine.Follows.givesUnless {x : Engine σ ω Point} {step : σ → Except Error Unit × σ}
    (h : Follows I x (andThen step fun _ => give r)) (hstep : Curable step) {s : State σ ω}
    (hs : I s.store) : GivesUnless (Fails step s.source) r (x.run s).1 := by
  obtain ⟨hx, -, -⟩ := h s hs
  rw [hx]
  unfold andThen
  rcases hd : step s.source with ⟨e | _, rest⟩
  · obtain ⟨site, why, rfl⟩ := hstep s.source e (congrArg Prod.fst hd)
    exact .inr ⟨⟨_, congrArg Prod.fst hd⟩, site, why, rfl⟩
  · refine .inl ⟨?_, rfl⟩
    rintro ⟨e, he⟩
    rw [hd] at he
    cases he

variable [RandomSource σ]

/-- None of the words that a scalar may be blinded with can be used. -/
def NoBlinding (source : σ) : Prop := ∀ i < 16, wordAt i source = 0

/-- None of the blocks that a point may be masked with can be used. -/
def NoMask (source : σ) : Prop := Barren (blockStep 32) maskOf 16 source

/-- What a protection lacks for multiplying a point. The words are drawn after the mask. -/
def Lacks (protection : Protection) (p : Point) (source : σ) : Prop :=
  match protection with
  | .none | .constantTime => False
  | .blinded => NoBlinding source
  | .blindedRandomized =>
    p.isInfinity = false ∧ NoMask source ∨
      NoBlinding (if p.isInfinity then source else (maskStep source).2)

/-- The draw of a word for a scalar. -/
def blindingStep : σ → Except Error Unit × σ :=
  andThen (nonzeroWordStep maskAttempts) fun _ => give ()

/-- The draw of a mask for a point. -/
def randomizeStep (p : Point) : σ → Except Error Point × σ :=
  if p.isInfinity then give p else andThen maskStep fun m => give (p.rescale m)

/-- The draws of a protection for multiplying a point. -/
def countermeasureStep (protection : Protection) (p : Point) : σ → Except Error Unit × σ :=
  match protection with
  | .none | .constantTime => give ()
  | .blinded => blindingStep
  | .blindedRandomized => andThen (randomizeStep p) fun _ => blindingStep

lemma curable_blindingStep : Curable (blindingStep : σ → Except Error Unit × σ) :=
  (curable_nonzeroWordStep _).andThen fun _ => curable_give ()

lemma curable_randomizeStep (p : Point) :
    Curable (randomizeStep p : σ → Except Error Point × σ) := by
  unfold randomizeStep
  split
  · exact curable_give p
  · exact curable_maskStep.andThen fun _ => curable_give _

lemma curable_countermeasureStep (protection : Protection) (p : Point) :
    Curable (countermeasureStep protection p : σ → Except Error Unit × σ) := by
  cases protection with
  | none => exact curable_give ()
  | constantTime => exact curable_give ()
  | blinded => exact curable_blindingStep
  | blindedRandomized => exact (curable_randomizeStep p).andThen fun _ => curable_blindingStep

lemma fails_blindingStep (source : σ) : Fails blindingStep source ↔ NoBlinding source := by
  unfold blindingStep
  rw [fails_andThen_give, fails_nonzeroWordStep]
  rfl

lemma fails_randomizeStep (p : Point) (source : σ) :
    Fails (randomizeStep p) source ↔ p.isInfinity = false ∧ NoMask source := by
  unfold randomizeStep
  rcases p.isInfinity
  · rw [if_neg Bool.false_ne_true, fails_andThen_give, eq_self, true_and]
    exact fails_sampleStep _ _
  · exact iff_of_false (not_fails_give p source) fun h => Bool.noConfusion h.1

lemma snd_randomizeStep (p : Point) (source : σ) :
    (randomizeStep p source).2 = if p.isInfinity then source else (maskStep source).2 := by
  unfold randomizeStep
  split
  · rfl
  · exact snd_andThen_give

/-- **The draws fail** exactly if something is lacking. -/
theorem fails_countermeasureStep (protection : Protection) (p : Point) (source : σ) :
    Fails (countermeasureStep protection p) source ↔ Lacks protection p source := by
  unfold countermeasureStep Lacks
  cases protection with
  | none => exact iff_false_intro (not_fails_give () source)
  | constantTime => exact iff_false_intro (not_fails_give () source)
  | blinded => exact fails_blindingStep source
  | blindedRandomized =>
    dsimp only
    rw [fails_andThen fun _ => fails_blindingStep, fails_randomizeStep, snd_randomizeStep]

lemma drawsBy_randomize (p : Point) :
    DrawsBy (p.randomize : Engine σ ω Point) (randomizeStep p) := by
  intro s
  unfold Point.randomize randomizeStep
  split
  · rfl
  · rw [run_bind, drawsBy_randomMask]
    unfold andThen
    rcases maskStep s.source with ⟨e | m, rest⟩ <;> rfl

/-- A point is left as it is, or a mask is applied to it. -/
lemma randomizeStep_cases {source : σ} {q : Point} (h : (randomizeStep p source).1 = .ok q) :
    q = p ∨ ∃ m : FieldElement, m.IsCanonical ∧ m.toZMod ≠ 0 ∧ q = p.rescale m := by
  unfold randomizeStep at h
  split at h
  · exact .inl (Except.ok.inj h).symm
  · unfold andThen at h
    rcases hm : maskStep source with ⟨e | m, rest⟩
    · rw [hm] at h
      cases h
    · rw [hm] at h
      obtain ⟨hmc, hm0⟩ := mask_of_maskStep (congrArg Prod.fst hm)
      exact .inr ⟨m, hmc, (Point.isZero_eq_false_iff hmc).mp hm0, (Except.ok.inj h).symm⟩

/-! ### Blinding -/

/-- A blinded scalar has the same multiples. -/
lemma follows_performBlinded (algorithm : Algorithm) (hp : p.Denotes P)
    (hr : r.Denotes (k.toNat • P)) (hrs : r.system = .affine) :
    Follows I (performBlinded algorithm k p : Engine σ ω Point)
      (andThen blindingStep fun _ => give r) := by
  unfold performBlinded blindingStep
  rw [andThen_assoc]
  refine (drawsBy_nonzeroWord _).follows.bind fun w _ => ?_
  refine (follows_report _).seq ?_
  have hblind : r.Denotes (LawfulBitString.toNat (k.blind w) • P) := by
    have h : LawfulBitString.toNat (k.blind w) • P = k.toNat • P := k.blind_smul w P
    rwa [h]
  exact follows_perform
    (multiply_eq algorithm (k.bitLength_blind_lt w) hp (fun t h => by cases h) hblind hrs)

/-- **A blinded multiplication** gives the multiple, unless all words are zero. -/
theorem performBlinded_spec (algorithm : Algorithm) (hp : p.Denotes P)
    (hr : r.Denotes (k.toNat • P)) (hrs : r.system = .affine) (s : State σ ω) :
    GivesUnless (NoBlinding s.source) r ((performBlinded algorithm k p).run s).1 := by
  have h := (follows_performBlinded (I := fun _ => True) algorithm hp hr hrs).givesUnless
    curable_blindingStep (s := s) trivial
  rwa [fails_blindingStep] at h

/-! ### Secret scalars -/

/-- The part of `multiplySecret` that depends on the protection. -/
def protectedMultiply (protection : Protection) (algorithm : Algorithm)
    (table : Option OddMultiples) (k : U256) (p : Point) : Engine σ ω Point :=
  match protection with
  | .none => perform algorithm k p table
  | .constantTime => montgomeryLadder k p
  | .blinded => performBlinded .montgomeryLadder k p
  | .blindedRandomized => do performBlinded .montgomeryLadder k (← p.randomize)

/-- The state after a point has passed and the multiplication has been counted and reported. -/
def announced (t : State σ Context) : State σ Context :=
  { t with
    store := { t.store with
      counters := { t.store.counters with
        scalarMultiplications := t.store.counters.scalarMultiplications + 1 } }
    events := .secretMultiplication t.store.config.sideChannel :: t.events }

lemma run_multiplySecret_of_validate {d : Scalar} {s t : State σ Context}
    (h : (validatePoint p).run s = (.ok (), t)) :
    (multiplySecret d p).run s =
      (protectedMultiply t.store.config.sideChannel t.store.config.algorithm
        (t.store.tableFor p) d.value p).run (announced t) := by
  unfold multiplySecret
  rw [run_bind, h]
  dsimp only
  unfold countMultiplication count
  rw [run_update_bind, run_stored_bind, run_report_bind]
  rfl

/-- What comes before is a validation that succeeds, and draws nothing. -/
lemma run_multiplySecret (d : Scalar) (hp : p.Denotes P) (s : State σ Context)
    (hs : s.store.Sound) :
    ∃ t : State σ Context, t.source = s.source ∧ t.store.Sound ∧
      (multiplySecret d p).run s =
        (protectedMultiply s.store.config.sideChannel s.store.config.algorithm
          (t.store.tableFor p) d.value p).run t := by
  have hI := invariant_sound.and (invariant_fixed fun c _ => c = s.store.config)
  have hvalid : Follows _ (validatePoint p : Session σ Unit) (give ()) :=
    (drawsNothing_validatePoint p).follows (ensures_validatePoint hI hp)
  obtain ⟨t, hrun, hsource, hSound, hconfig⟩ := hvalid.exists_run_eq ⟨hs, rfl⟩
  have hc : s.store.config = t.store.config := hconfig.symm
  rw [hc, run_multiplySecret_of_validate hrun]
  exact ⟨announced t, hsource, hSound, rfl⟩

lemma drawsNothing_protectedMultiply {protection : Protection} (algorithm : Algorithm)
    (table : Option OddMultiples) (k : U256) (p : Point)
    (h : protection = .none ∨ protection = .constantTime) :
    DrawsNothing (protectedMultiply protection algorithm table k p : Engine σ ω Point) := by
  rcases h with rfl | rfl
  · exact drawsNothing_perform _ _ _ _
  · exact drawsNothing_lift _

/-- **Under every protection** the draws decide whether the multiple is given. -/
theorem follows_protectedMultiply (protection : Protection) (algorithm : Algorithm)
    {table : Option OddMultiples} (ht : ∀ t ∈ table, t.IsTableOf P) (hp : p.Denotes P)
    (hr : r.Denotes (k.toNat • P)) (hrs : r.system = .affine) :
    Follows I (protectedMultiply protection algorithm table k p : Engine σ ω Point)
      (andThen (countermeasureStep protection p) fun _ => give r) := by
  unfold protectedMultiply countermeasureStep
  cases protection with
  | none => exact follows_perform (multiply_eq algorithm k.bitLength_lt hp ht hr hrs)
  | constantTime =>
    exact follows_lift (multiply_eq .montgomeryLadder k.bitLength_lt hp ht hr hrs)
  | blinded => exact follows_performBlinded .montgomeryLadder hp hr hrs
  | blindedRandomized =>
    dsimp only
    rw [andThen_assoc]
    refine (drawsBy_randomize p).follows.bind ?_
    rintro q ⟨source, hq⟩
    refine follows_performBlinded .montgomeryLadder ?_ hr hrs
    obtain rfl | ⟨m, hm, hm0, rfl⟩ := randomizeStep_cases hq
    · exact hp
    · exact hp.rescale hm hm0

/-- **Every protection** gives the multiple, unless it lacks randomness. -/
theorem protectedMultiply_spec (protection : Protection) (algorithm : Algorithm)
    {table : Option OddMultiples} (ht : ∀ t ∈ table, t.IsTableOf P) (hp : p.Denotes P)
    (hr : r.Denotes (k.toNat • P)) (hrs : r.system = .affine) (s : State σ ω) :
    GivesUnless (Lacks protection p s.source) r
      ((protectedMultiply protection algorithm table k p).run s).1 := by
  have h := (follows_protectedMultiply (I := fun _ => True) protection algorithm ht hp hr
    hrs).givesUnless (curable_countermeasureStep protection p) (s := s) trivial
  rwa [fails_countermeasureStep] at h

/-! ### Results -/

/-- **Countermeasures never change a result.** There is one point that every multiplication of a
point of the curve by a secret scalar gives: with every protection and every algorithm, in every
context, and from every source. Only the source decides whether there is a result, and with no
blinding no source is needed. The blinded scalar has room in 512 bits. -/
theorem countermeasures_keep_result (k : U256) (hp : p.WellFormed) (hc : p.isOnCurve = true) :
    ∃ P r, p.Denotes P ∧ r.Denotes (k.toNat • P) ∧ r.system = .affine ∧
      (∀ {σ : Type} [RandomSource σ] (d : Scalar) (s : State σ Context), d.value = k →
        Reachable s.store →
        GivesUnless (Lacks s.store.config.sideChannel p s.source) r
          ((multiplySecret d p).run s).1 ∧
        (s.store.config.sideChannel = .none ∨ s.store.config.sideChannel = .constantTime →
          ((multiplySecret d p).run s).2.source = s.source)) ∧
      (∀ {σ ω : Type} [RandomSource σ] (algorithm : Algorithm) (s : State σ ω),
        GivesUnless (NoBlinding s.source) r ((performBlinded algorithm k p).run s).1) ∧
      ∀ w : UInt64, (k.blind w).toNat = k.toNat + w.toNat * groupOrder ∧
        k.toNat + w.toNat * groupOrder < 2 ^ 512 := by
  obtain ⟨P, hP⟩ := (Point.isOnCurve_iff hp).mp hc
  obtain ⟨r, hr, hrP⟩ := montgomeryLadder_spec k hP
  have hrs := system_of_montgomeryLadder hr
  refine ⟨P, r, hP, hrP, hrs, ?_, ?_, ?_⟩
  · rintro σ _ d s rfl hs
    obtain ⟨t, ht, hSound, hrun⟩ := run_multiplySecret d hP s hs.sound
    rw [hrun, ← ht]
    refine ⟨protectedMultiply_spec _ _ (hSound.tableFor hP) hP hrP hrs t, ?_⟩
    intro h
    exact drawsNothing_protectedMultiply _ _ _ _ h t
  · intro σ ω _ algorithm s
    exact performBlinded_spec algorithm hP hrP hrs s
  · intro w
    rw [← k.toNat_blind w]
    exact ⟨rfl, (k.blind w).toNat_lt_two_pow⟩

/-- Blinding with the word 1 leaves the multiple by 1. -/
theorem countermeasures_keep_generator :
    Point.generator.WellFormed ∧ Point.generator.isOnCurve = true ∧
      ((performBlinded .montgomeryLadder .one .generator).run
        (⟨⟨#[1], .zero, 0⟩, [], ()⟩ : State Tape Unit)).1 = .ok .generator := by
  have hg := Point.denotes_generator
  refine ⟨hg.wellFormed, hg.isOnCurve, ?_⟩
  obtain ⟨P, r, hP, hr, hrs, -, hblinded, -⟩ :=
    countermeasures_keep_result .one hg.wellFormed hg.isOnCurve
  obtain rfl := hP.unique hg
  rw [U256.toNat_one, one_nsmul] at hr
  obtain rfl := hr.eq_of_affine hg hrs rfl
  have hword : ¬NoBlinding (⟨#[1], .zero, 0⟩ : Tape) := by
    intro h
    have h0 : wordAt 0 (⟨#[1], .zero, 0⟩ : Tape) = 1 := by decide +kernel
    exact absurd (h0.symm.trans (h 0 (by omega))) (by decide)
  exact (hblinded .montgomeryLadder _).eq_ok hword

end Secp256k1
