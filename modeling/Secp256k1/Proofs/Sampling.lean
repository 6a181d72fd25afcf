import Secp256k1.Engine.Sampling
import Mathlib.Logic.Function.Iterate

/-!
Which draws a sampler takes.

A draw takes something from the source and leaves the rest of the state alone. A sampler goes
through the draws in order. It ends at the first one that is accepted, at the first one that the
source refuses, or when there are no draws left, and takes no draw beyond.
-/

namespace Secp256k1.Engine

variable {σ ω α β : Type}

/-- The computation does to the source what `step` does, and to nothing else anything. -/
def DrawsBy (draw : Engine σ ω α) (step : σ → Except Error α × σ) : Prop :=
  ∀ s, draw.run s = ((step s.source).1, { s with source := (step s.source).2 })

section Draws

variable (step : σ → Except Error α × σ) (accept : α → Option β)

/-- The source after so many draws. -/
def after (i : ℕ) (source : σ) : σ := (fun s => (step s).2)^[i] source

/-- What the draw with the index `i` gives; the first one has the index 0. -/
def drawn (i : ℕ) (source : σ) : Except Error α := (step (after step i source)).1

/-- The draw with the index `i` gives something that is not accepted. -/
def Rejects (i : ℕ) (source : σ) : Prop := ∃ a, drawn step i source = .ok a ∧ accept a = none

/-- None of so many draws is accepted: all are rejected, or the source refuses one before any is
accepted. -/
def Barren (n : ℕ) (source : σ) : Prop :=
  ∃ i ≤ n, (∀ j < i, Rejects step accept j source) ∧
    (i = n ∨ ∃ e, drawn step i source = .error e)

/-- The outcomes of a sampler with so many draws, with the source that it leaves. -/
inductive Sampled (exhausted : Error) (n : ℕ) (source : σ) : Except Error β × σ → Prop
  | accepted (i : ℕ) (hi : i < n) (hrej : ∀ j < i, Rejects step accept j source) (a : α) (b : β)
      (ha : drawn step i source = .ok a) (hb : accept a = some b) :
      Sampled exhausted n source (.ok b, after step (i + 1) source)
  | refused (i : ℕ) (hi : i < n) (hrej : ∀ j < i, Rejects step accept j source) (e : Error)
      (he : drawn step i source = .error e) :
      Sampled exhausted n source (.error e, after step (i + 1) source)
  | exhausted (hrej : ∀ j < n, Rejects step accept j source) :
      Sampled exhausted n source (.error exhausted, after step n source)

end Draws

variable {draw : Engine σ ω α} {step : σ → Except Error α × σ} {accept : α → Option β}
  {exhausted : Error} {n i : ℕ} {source : σ}

lemma forall_rejects_succ (h0 : Rejects step accept 0 source)
    (h : ∀ j < i, Rejects step accept j (step source).2) :
    ∀ j < i + 1, Rejects step accept j source := by
  intro j hj
  cases j with
  | zero => exact h0
  | succ j => exact h j (Nat.lt_of_succ_lt_succ hj)

/-- A draw that is rejected comes before everything else. -/
lemma Sampled.cons {r : Except Error β × σ} (h0 : Rejects step accept 0 source)
    (h : Sampled step accept exhausted n (step source).2 r) :
    Sampled step accept exhausted (n + 1) source r := by
  cases h with
  | accepted i hi hrej a b ha hb =>
    exact .accepted (i + 1) (Nat.succ_lt_succ hi) (forall_rejects_succ h0 hrej) a b ha hb
  | refused i hi hrej e he =>
    exact .refused (i + 1) (Nat.succ_lt_succ hi) (forall_rejects_succ h0 hrej) e he
  | exhausted hrej => exact .exhausted (forall_rejects_succ h0 hrej)

/-- A sampler fails if there is nothing for it to accept. -/
lemma Sampled.error_iff {r : Except Error β × σ}
    (h : Sampled step accept exhausted n source r) :
    (∃ e, r.1 = .error e) ↔ Barren step accept n source := by
  cases h with
  | accepted i hi hrej a b ha hb =>
    refine iff_of_false ?_ ?_
    · rintro ⟨e, he⟩
      cases he
    · rintro ⟨j, hj, hrej', hend⟩
      rcases Nat.lt_or_ge i j with hij | hij
      · obtain ⟨a', ha', hn⟩ := hrej' i hij
        obtain rfl := Except.ok.inj (ha.symm.trans ha')
        cases hb.symm.trans hn
      · rcases hend with rfl | ⟨e, he⟩
        · exact absurd hi (Nat.not_lt.mpr hij)
        · rcases Nat.lt_or_eq_of_le hij with hlt | rfl
          · obtain ⟨a', ha', -⟩ := hrej j hlt
            cases ha'.symm.trans he
          · cases ha.symm.trans he
  | refused i hi hrej e he => exact iff_of_true ⟨e, rfl⟩ ⟨i, Nat.le_of_lt hi, hrej, .inr ⟨e, he⟩⟩
  | exhausted hrej => exact iff_of_true ⟨_, rfl⟩ ⟨n, Nat.le_refl n, hrej, .inl rfl⟩

/-- What a sampler does to the source. -/
def sampleStep (step : σ → Except Error α × σ) (accept : α → Option β) (exhausted : Error) :
    ℕ → σ → Except Error β × σ
  | 0, source => (.error exhausted, source)
  | n + 1, source =>
    match step source with
    | (.error e, rest) => (.error e, rest)
    | (.ok a, rest) =>
      match accept a with
      | some b => (.ok b, rest)
      | none => sampleStep step accept exhausted n rest

lemma DrawsBy.sample (hd : DrawsBy draw step) (n : ℕ) :
    DrawsBy (sample draw accept exhausted n) (sampleStep step accept exhausted n) := by
  induction n with
  | zero => exact fun s => rfl
  | succ n ih =>
    intro s
    unfold Engine.sample sampleStep
    rw [run_bind, hd s]
    rcases step s.source with ⟨e | a, rest⟩
    · rfl
    · dsimp only
      rcases accept a with _ | b
      · exact ih { s with source := rest }
      · rfl

section Head

variable {a : α} {b : β} {e : Error}

lemma DrawsBy.run_bind_of_ok {f : α → Engine σ ω β} {s : State σ ω} {rest : σ}
    (hd : DrawsBy draw step) (ha : step s.source = (.ok a, rest)) :
    (draw >>= f).run s = (f a).run { s with source := rest } := by
  rw [run_bind, hd s, ha]

lemma DrawsBy.run_bind_of_error {f : α → Engine σ ω β} {s : State σ ω} {rest : σ}
    (hd : DrawsBy draw step) (he : step s.source = (.error e, rest)) :
    (draw >>= f).run s = (.error e, { s with source := rest }) := by
  rw [run_bind, hd s, he]

lemma Sampled.of_ok (ha : (step source).1 = .ok a) (hb : accept a = some b) :
    Sampled step accept exhausted (n + 1) source (.ok b, (step source).2) :=
  .accepted 0 n.succ_pos (fun j hj => absurd hj j.not_lt_zero) a b ha hb

lemma Sampled.of_error (he : (step source).1 = .error e) :
    Sampled step accept exhausted (n + 1) source (.error e, (step source).2) :=
  .refused 0 n.succ_pos (fun j hj => absurd hj j.not_lt_zero) e he

lemma sampleStep_succ (ha : (step source).1 = .ok a) :
    sampleStep step accept exhausted (n + 1) source =
      match accept a with
      | some b => (.ok b, (step source).2)
      | none => sampleStep step accept exhausted n (step source).2 := by
  rcases hstep : step source with ⟨o, rest⟩
  obtain rfl : o = .ok a := (congrArg Prod.fst hstep).symm.trans ha
  rw [sampleStep, hstep]

lemma sampleStep_of_ok (ha : (step source).1 = .ok a) (hb : accept a = some b) :
    sampleStep step accept exhausted (n + 1) source = (.ok b, (step source).2) := by
  rw [sampleStep_succ ha, hb]

lemma sampleStep_of_error (he : (step source).1 = .error e) :
    sampleStep step accept exhausted (n + 1) source = (.error e, (step source).2) := by
  rcases hstep : step source with ⟨o, rest⟩
  obtain rfl : o = .error e := (congrArg Prod.fst hstep).symm.trans he
  rw [sampleStep, hstep]

lemma sampleStep_of_rejects (h0 : Rejects step accept 0 source) :
    sampleStep step accept exhausted (n + 1) source =
      sampleStep step accept exhausted n (step source).2 := by
  obtain ⟨a, ha, hn⟩ := h0
  have ha : (step source).1 = .ok a := ha
  rw [sampleStep_succ ha, hn]

end Head

/-- **A sampler takes the draws up to the first one that decides.** The induction is on the
draws that are left. -/
theorem sampled_sampleStep (n : ℕ) (source : σ) :
    Sampled step accept exhausted n source (sampleStep step accept exhausted n source) := by
  induction n generalizing source with
  | zero => exact .exhausted fun j hj => absurd hj j.not_lt_zero
  | succ n ih =>
    rcases hstep : (step source).1 with e | a
    · rw [sampleStep_of_error hstep]
      exact .of_error hstep
    · rcases ha : accept a with _ | b
      · have h0 : Rejects step accept 0 source := ⟨a, hstep, ha⟩
        rw [sampleStep_of_rejects h0]
        exact .cons h0 (ih _)
      · rw [sampleStep_of_ok hstep ha]
        exact .of_ok hstep ha

lemma forall_rejects_tail (h : ∀ j < i + 1, Rejects step accept j source) :
    ∀ j < i, Rejects step accept j (step source).2 :=
  fun j hj => h (j + 1) (Nat.succ_lt_succ hj)

/-- **A sampler has one outcome only.** The induction takes the rejected draws off one by one. -/
theorem Sampled.eq_sampleStep {r : Except Error β × σ}
    (h : Sampled step accept exhausted n source r) :
    r = sampleStep step accept exhausted n source := by
  induction n generalizing source with
  | zero =>
    cases h with
    | accepted i hi => exact absurd hi i.not_lt_zero
    | refused i hi => exact absurd hi i.not_lt_zero
    | exhausted => rfl
  | succ n ih =>
    cases h with
    | accepted i hi hrej a b ha hb =>
      cases i with
      | zero => exact (sampleStep_of_ok ha hb).symm
      | succ i =>
        rw [sampleStep_of_rejects (hrej 0 i.succ_pos)]
        exact ih (.accepted i (Nat.lt_of_succ_lt_succ hi) (forall_rejects_tail hrej) a b ha hb)
    | refused i hi hrej e he =>
      cases i with
      | zero => exact (sampleStep_of_error he).symm
      | succ i =>
        rw [sampleStep_of_rejects (hrej 0 i.succ_pos)]
        exact ih (.refused i (Nat.lt_of_succ_lt_succ hi) (forall_rejects_tail hrej) e he)
    | exhausted hrej =>
      rw [sampleStep_of_rejects (hrej 0 n.succ_pos)]
      exact ih (.exhausted (forall_rejects_tail hrej))

/-- What a sampler gives is what its first draw that is not rejected leads to. -/
lemma Sampled.ok_iff {r : Except Error β × σ} (h : Sampled step accept exhausted n source r)
    {b : β} :
    r.1 = .ok b ↔ ∃ i < n, (∀ j < i, Rejects step accept j source) ∧
      ∃ a, drawn step i source = .ok a ∧ accept a = some b := by
  constructor
  · intro hr
    cases h with
    | accepted i hi hrej a b' ha hb =>
      obtain rfl := Except.ok.inj hr
      exact ⟨i, hi, hrej, a, ha, hb⟩
    | refused => cases hr
    | exhausted => cases hr
  · rintro ⟨i, hi, hrej, a, ha, hb⟩
    rw [h.eq_sampleStep, ← (Sampled.accepted i hi hrej a b ha hb).eq_sampleStep]

/-! ### Words and blocks -/

variable [RandomSource σ]

/-- Words are never refused. -/
def wordStep (source : σ) : Except Error UInt64 × σ :=
  (.ok (RandomSource.word source).1, (RandomSource.word source).2)

def blockStep (n : ℕ) (source : σ) : Except Error (Vector UInt8 n) × σ :=
  (match (RandomSource.bytes n source).1 with
    | some b => .ok b
    | none => .error (.computationFailed "secure random" "random generator failure"),
    (RandomSource.bytes n source).2)

lemma drawsBy_drawWord : DrawsBy (drawWord : Engine σ ω UInt64) wordStep := run_drawWord

lemma drawsBy_drawBytes (n : ℕ) :
    DrawsBy (drawBytes n : Engine σ ω (Vector UInt8 n)) (blockStep n) := run_drawBytes n

/-- The word with the index `i`. -/
def wordAt (i : ℕ) (source : σ) : UInt64 := (RandomSource.word (after wordStep i source)).1

def nonzeroWordStep (n : ℕ) : σ → Except Error UInt64 × σ :=
  sampleStep wordStep (fun w => if w == 0 then none else some w)
    (.computationFailed "secure random" "random generator produced only zero words") n

lemma drawsBy_nonzeroWord (n : ℕ) :
    DrawsBy (nonzeroWord n : Engine σ ω UInt64) (nonzeroWordStep n) := drawsBy_drawWord.sample n

def scalarStep (n : ℕ) : σ → Except Error Scalar × σ :=
  sampleStep (blockStep 32) (fun b => (Scalar.ofBytes b.toList).toOption)
    (.computationFailed "random_scalar" "no scalar in range after the attempt bound") n

lemma drawsBy_randomScalar (n : ℕ) :
    DrawsBy (randomScalar n : Engine σ ω Scalar) (scalarStep n) := (drawsBy_drawBytes 32).sample n

/-- The mask that a block gives. -/
def maskOf (b : Vector UInt8 32) : Option FieldElement :=
  let a := FieldElement.reduce (U256.ofBytes b.toList)
  if a.isZero then none else some a

def maskStep : σ → Except Error FieldElement × σ :=
  sampleStep (blockStep 32) maskOf
    (.computationFailed "randomize_point" "random generator produced no usable mask") maskAttempts

lemma drawsBy_randomMask : DrawsBy (randomMask : Engine σ ω FieldElement) maskStep :=
  (drawsBy_drawBytes 32).sample maskAttempts

/-! ### Without a draw -/

omit [RandomSource σ]

/-- The computation leaves the source as it is. -/
def DrawsNothing (x : Engine σ ω α) : Prop := ∀ s, (x.run s).2.source = s.source

lemma drawsNothing_pure (a : α) : DrawsNothing (pure a : Engine σ ω α) := fun _ => rfl

lemma drawsNothing_throw (e : Error) : DrawsNothing (throw e : Engine σ ω α) := fun _ => rfl

lemma drawsNothing_lift (r : Except Error α) : DrawsNothing (liftM r : Engine σ ω α) :=
  fun _ => rfl

lemma drawsNothing_report (es : List Event) : DrawsNothing (report es : Engine σ ω Unit) :=
  fun _ => rfl

lemma drawsNothing_stored : DrawsNothing (stored : Engine σ ω ω) := fun _ => rfl

lemma drawsNothing_update (f : ω → ω) : DrawsNothing (update f : Engine σ ω Unit) := fun _ => rfl

lemma DrawsNothing.bind {x : Engine σ ω α} {f : α → Engine σ ω β} (hx : DrawsNothing x)
    (hf : ∀ a, DrawsNothing (f a)) : DrawsNothing (x >>= f) := by
  intro s
  have h := hx s
  rw [run_bind]
  rcases hr : x.run s with ⟨e | a, t⟩
  · rwa [hr] at h
  · rw [hr] at h
    exact (hf a t).trans h

lemma DrawsNothing.tryCatch {x : Engine σ ω α} {g : Error → Engine σ ω α} (hx : DrawsNothing x)
    (hg : ∀ e, DrawsNothing (g e)) : DrawsNothing (tryCatch x g) := by
  intro s
  have h := hx s
  rw [run_tryCatch]
  rcases hr : x.run s with ⟨e | a, t⟩
  · rw [hr] at h
    exact (hg e t).trans h
  · rwa [hr] at h

end Secp256k1.Engine
