import Secp256k1.Proofs.Outcomes
import Secp256k1.Proofs.Sampling

/-!
Computations that their draws decide.

While the store keeps an invariant, the outcome of a computation may depend on the source of
randomness alone. What the computation does to the source is a step then, and steps follow each
other as the parts of the computation do. The draws for a countermeasure are such a step: they
decide whether there is a result, and the result is the multiple.
-/

namespace Secp256k1.Engine

variable {σ ω α β γ : Type} {I : ω → Prop} {x : Engine σ ω α} {f : α → Engine σ ω β}

/-- On a store with the invariant the computation has the outcome of the step, it leaves the
source as the step does, and it keeps the invariant. -/
def Follows (I : ω → Prop) (x : Engine σ ω α) (step : σ → Except Error α × σ) : Prop :=
  ∀ s, I s.store → (x.run s).1 = (step s.source).1 ∧ (x.run s).2.source = (step s.source).2 ∧
    I (x.run s).2.store

/-- The step without a draw. -/
def give (a : α) (source : σ) : Except Error α × σ := (.ok a, source)

/-- One step, and the next one unless the first one fails. -/
def andThen (first : σ → Except Error α × σ) (next : α → σ → Except Error β × σ) (source : σ) :
    Except Error β × σ :=
  match first source with
  | (.ok a, rest) => next a rest
  | (.error e, rest) => (.error e, rest)

variable {first step : σ → Except Error α × σ} {next : α → σ → Except Error β × σ}

lemma andThen_assoc {last : β → σ → Except Error γ × σ} :
    andThen (andThen first next) last = andThen first fun a => andThen (next a) last := by
  funext source
  unfold andThen
  rcases first source with ⟨e | a, rest⟩ <;> rfl

lemma DrawsBy.follows (h : DrawsBy x step) : Follows I x step := by
  intro s hs
  rw [h s]
  exact ⟨rfl, rfl, hs⟩

lemma follows_report (es : List Event) : Follows I (report es : Engine σ ω Unit) (give ()) :=
  fun _ hs => ⟨rfl, rfl, hs⟩

lemma follows_lift {r : Except Error α} {a : α} (h : r = .ok a) :
    Follows I (liftM r : Engine σ ω α) (give a) := by
  rw [h]
  exact fun _ hs => ⟨rfl, rfl, hs⟩

/-- What succeeds and draws nothing is the step without a draw. -/
lemma DrawsNothing.follows {a : α} (hd : DrawsNothing x) (hx : Ensures I x fun o => o = .ok a) :
    Follows I x (give a) := by
  intro s hs
  exact ⟨(hx s hs).1, hd s, (hx s hs).2⟩

lemma Follows.exists_run_eq {a : α} (h : Follows I x (give a)) {s : State σ ω} (hs : I s.store) :
    ∃ t, x.run s = (.ok a, t) ∧ t.source = s.source ∧ I t.store := by
  obtain ⟨hresult, hsource, hI⟩ := h s hs
  exact ⟨(x.run s).2, Prod.ext hresult rfl, hsource, hI⟩

/-- The rest need only follow its step on what the first part can give. -/
lemma Follows.bind (hx : Follows I x first)
    (hf : ∀ a, (∃ source, (first source).1 = .ok a) → Follows I (f a) (next a)) :
    Follows I (x >>= f) (andThen first next) := by
  intro s hs
  obtain ⟨hresult, hsource, hI⟩ := hx s hs
  rw [run_bind, andThen]
  rcases hrun : x.run s with ⟨e | a, t⟩
  · rw [hrun] at hresult hsource hI
    rcases hfirst : first s.source with ⟨o, rest⟩
    rw [hfirst] at hresult hsource
    obtain rfl : Except.error e = o := hresult
    exact ⟨rfl, hsource, hI⟩
  · rw [hrun] at hresult hsource hI
    rcases hfirst : first s.source with ⟨o, rest⟩
    rw [hfirst] at hresult hsource
    obtain rfl : Except.ok a = o := hresult
    obtain rfl : t.source = rest := hsource
    exact hf a ⟨s.source, congrArg Prod.fst hfirst⟩ t hI

/-- What comes before does nothing to the source. -/
lemma Follows.seq {x : Engine σ ω Unit} {f : Unit → Engine σ ω β} {step : σ → Except Error β × σ}
    (hx : Follows I x (give ())) (hf : Follows I (f ()) step) : Follows I (x >>= f) step := by
  have h : Follows I (x >>= f) (andThen (give ()) fun _ => step) := hx.bind fun _ _ => hf
  exact h

/-- What a step gives is what the computation returns. -/
lemma DrawsBy.of_returns {draw : Engine σ Unit α} {Q : α → Prop} (hd : DrawsBy draw step)
    (hr : Returns (fun _ => True) draw Q) {source : σ} {a : α} (h : (step source).1 = .ok a) :
    Q a := by
  have ha := (hr ⟨source, [], ()⟩ trivial).1 a
  rw [hd] at ha
  exact ha h

/-! ### How steps fail -/

def Fails (step : σ → Except Error α × σ) (source : σ) : Prop := ∃ e, (step source).1 = .error e

lemma not_fails_give (a : α) (source : σ) : ¬Fails (give a) source := by
  rintro ⟨e, h⟩
  cases h

/-- Whether the next step fails may depend on the source only. -/
lemma fails_andThen {Q : σ → Prop} {source : σ}
    (hnext : ∀ a rest, Fails (next a) rest ↔ Q rest) :
    Fails (andThen first next) source ↔ Fails first source ∨ Q (first source).2 := by
  unfold Fails andThen
  rcases first source with ⟨e | a, rest⟩
  · exact iff_of_true ⟨e, rfl⟩ (.inl ⟨e, rfl⟩)
  · refine (hnext a rest).trans ⟨.inr, fun h => h.resolve_left ?_⟩
    rintro ⟨e, h⟩
    cases h

lemma fails_andThen_give {g : α → β} {source : σ} :
    Fails (andThen first fun a => give (g a)) source ↔ Fails first source := by
  have h : ∀ a (rest : σ), Fails (give (g a)) rest ↔ False := by
    intro a rest
    exact iff_false_intro (not_fails_give _ rest)
  rw [fails_andThen h, or_false]

lemma snd_andThen_give {g : α → β} {source : σ} :
    (andThen first (fun a => give (g a)) source).2 = (first source).2 := by
  unfold andThen
  rcases first source with ⟨e | a, rest⟩ <;> rfl

lemma fails_sampleStep {accept : α → Option β} {exhausted : Error} (n : ℕ) (source : σ) :
    Fails (sampleStep step accept exhausted n) source ↔ Barren step accept n source :=
  (sampled_sampleStep n source).error_iff

/-- The step fails as a computation does that fresh randomness may cure, and in no other way. -/
def Curable (step : σ → Except Error α × σ) : Prop :=
  ∀ source e, (step source).1 = .error e → ∃ site why, e = .computationFailed site why

lemma curable_give (a : α) : Curable (give a : σ → Except Error α × σ) := by
  rintro source e h
  cases h

lemma Curable.andThen (hfirst : Curable first) (hnext : ∀ a, Curable (next a)) :
    Curable (andThen first next) := by
  intro source e h
  unfold Engine.andThen at h
  rcases hr : first source with ⟨e' | a, rest⟩
  · rw [hr] at h
    obtain rfl := Except.error.inj h
    exact hfirst source e' (congrArg Prod.fst hr)
  · rw [hr] at h
    exact hnext a rest e h

/-- The induction is on the draws that are left. -/
lemma Curable.sampleStep {accept : α → Option β} {site why : String} (hstep : Curable step)
    (n : ℕ) : Curable (sampleStep step accept (.computationFailed site why) n) := by
  induction n with
  | zero =>
    rintro source e h
    exact ⟨site, why, (Except.error.inj h).symm⟩
  | succ n ih =>
    rintro source e h
    rcases hr : (step source).1 with e' | a
    · rw [sampleStep_of_error hr] at h
      obtain rfl := Except.error.inj h
      exact hstep source e' hr
    · rcases ha : accept a with _ | b
      · rw [sampleStep_of_rejects ⟨a, hr, ha⟩] at h
        exact ih _ e h
      · rw [sampleStep_of_ok hr ha] at h
        cases h

variable [RandomSource σ]

lemma curable_blockStep (n : ℕ) :
    Curable (blockStep n : σ → Except Error (Vector UInt8 n) × σ) := by
  intro source e h
  unfold blockStep at h
  dsimp only at h
  split at h
  · cases h
  · exact ⟨_, _, (Except.error.inj h).symm⟩

lemma curable_wordStep : Curable (wordStep : σ → Except Error UInt64 × σ) := by
  rintro source e h
  cases h

lemma curable_nonzeroWordStep (n : ℕ) :
    Curable (nonzeroWordStep n : σ → Except Error UInt64 × σ) := curable_wordStep.sampleStep n

lemma curable_maskStep : Curable (maskStep : σ → Except Error FieldElement × σ) :=
  (curable_blockStep 32).sampleStep maskAttempts

lemma curable_scalarStep (n : ℕ) : Curable (scalarStep n : σ → Except Error Scalar × σ) :=
  (curable_blockStep 32).sampleStep n

/-- There is a word that is not zero, or nothing to be had. -/
lemma fails_nonzeroWordStep (n : ℕ) (source : σ) :
    Fails (nonzeroWordStep n) source ↔ ∀ i < n, wordAt i source = 0 := by
  have hrejects : ∀ j, Rejects wordStep (fun w => if w == 0 then none else some w) j source ↔
      wordAt j source = 0 := by
    intro j
    unfold Rejects drawn wordAt wordStep
    simp
  unfold nonzeroWordStep
  rw [fails_sampleStep]
  constructor
  · rintro ⟨i, -, hrej, rfl | ⟨e, he⟩⟩
    · exact fun j hj => (hrejects j).mp (hrej j hj)
    · cases he
  · exact fun h => ⟨n, le_rfl, fun j hj => (hrejects j).mpr (h j hj), .inl rfl⟩

lemma mask_of_maskStep {source : σ} {m : FieldElement} (h : (maskStep source).1 = .ok m) :
    m.IsCanonical ∧ m.isZero = false :=
  drawsBy_randomMask.of_returns returns_randomMask h

lemma scalar_of_scalarStep {n : ℕ} {source : σ} {k : Scalar}
    (h : (scalarStep n source).1 = .ok k) : k.isPrivateKey = true ∧ k.cachedInverse = none :=
  (drawsBy_randomScalar n).of_returns (returns_randomScalar n) h

end Secp256k1.Engine
