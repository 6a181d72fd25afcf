import Secp256k1.Engine.Sampling
import Secp256k1.Proofs.Residues

/-!
What a computation does to an invariant of the store, and which outcomes it has.

The rules follow the ways to build a computation. Events and the source of randomness play no
part: whatever the source does is covered.
-/

namespace Secp256k1.Engine

variable {σ ω α β : Type} {I : ω → Prop} {x y : Engine σ ω α} {f : α → Engine σ ω β}
  {Q R : Except Error α → Prop} {S : Except Error β → Prop} {e : Error}

/-- From a store with the invariant the computation has an outcome as described, and it leaves a
store with the invariant. -/
def Ensures (I : ω → Prop) (x : Engine σ ω α) (Q : Except Error α → Prop) : Prop :=
  ∀ s, I s.store → Q (x.run s).1 ∧ I (x.run s).2.store

/-- The computation keeps the invariant, whatever its outcome is. -/
def Keeps (I : ω → Prop) (x : Engine σ ω α) : Prop := Ensures I x fun _ => True

/-- The computation succeeds, with a result as described. -/
def Yields (I : ω → Prop) (x : Engine σ ω α) (P : α → Prop) : Prop :=
  Ensures I x fun r => ∃ a, r = .ok a ∧ P a

/-- If the computation succeeds, then with a result as described. -/
def Returns (I : ω → Prop) (x : Engine σ ω α) (P : α → Prop) : Prop :=
  Ensures I x fun r => ∀ a, r = .ok a → P a

lemma Ensures.mono (h : Ensures I x Q) (hQR : ∀ r, Q r → R r) : Ensures I x R := by
  intro s hs
  exact ⟨hQR _ (h s hs).1, (h s hs).2⟩

lemma Ensures.keeps (h : Ensures I x Q) : Keeps I x := h.mono fun _ _ => trivial

/-- An outcome that does not depend on the store. -/
lemma Keeps.ensures (h : Keeps I x) (hQ : ∀ s, Q (x.run s).1) : Ensures I x Q :=
  fun s hs => ⟨hQ s, (h s hs).2⟩

lemma ensures_pure {a : α} (h : Q (.ok a)) : Ensures I (pure a : Engine σ ω α) Q :=
  fun _ hs => ⟨h, hs⟩

lemma ensures_throw (h : Q (.error e)) : Ensures I (throw e : Engine σ ω α) Q :=
  fun _ hs => ⟨h, hs⟩

lemma ensures_lift {r : Except Error α} (h : Q r) : Ensures I (liftM r : Engine σ ω α) Q :=
  fun _ hs => ⟨h, hs⟩

lemma ensures_report (es : List Event) :
    Ensures I (report es : Engine σ ω Unit) fun r => r = .ok () :=
  fun _ hs => ⟨rfl, hs⟩

lemma ensures_stored : Ensures I (stored : Engine σ ω ω) fun r => ∃ c, r = .ok c ∧ I c :=
  fun s hs => ⟨⟨s.store, rfl, hs⟩, hs⟩

lemma ensures_update {g : ω → ω} (h : ∀ c, I c → I (g c)) :
    Ensures I (update g : Engine σ ω Unit) fun r => r = .ok () :=
  fun s hs => ⟨rfl, h s.store hs⟩

lemma Ensures.bind (hx : Ensures I x Q) (hok : ∀ a, Q (.ok a) → Ensures I (f a) S)
    (herror : ∀ e, Q (.error e) → S (.error e)) : Ensures I (x >>= f) S := by
  intro s hs
  obtain ⟨hq, hi⟩ := hx s hs
  rw [run_bind]
  rcases hr : x.run s with ⟨_ | a, t⟩
  · rw [hr] at hq hi
    exact ⟨herror _ hq, hi⟩
  · rw [hr] at hq hi
    exact hok a hq t hi

lemma Ensures.tryCatch {g : Error → Engine σ ω α} (hx : Ensures I x Q)
    (hok : ∀ a, Q (.ok a) → R (.ok a)) (herror : ∀ e, Q (.error e) → Ensures I (g e) R) :
    Ensures I (tryCatch x g) R := by
  intro s hs
  obtain ⟨hq, hi⟩ := hx s hs
  rw [run_tryCatch]
  rcases hr : x.run s with ⟨e | a, t⟩
  · rw [hr] at hq hi
    exact herror e hq t hi
  · rw [hr] at hq hi
    exact ⟨hok a hq, hi⟩

/-- After a computation that succeeds the rest runs. -/
lemma Yields.bind {P : α → Prop} (hx : Yields I x P) (hf : ∀ a, P a → Ensures I (f a) S) :
    Ensures I (x >>= f) S := by
  refine Ensures.bind hx ?_ ?_
  · rintro a ⟨b, h, hb⟩
    obtain rfl := Except.ok.inj h
    exact hf a hb
  · rintro e ⟨b, h, -⟩
    cases h

/-- After a step without a result the rest runs. -/
lemma Ensures.seq {x : Engine σ ω Unit} {f : Unit → Engine σ ω β}
    (hx : Ensures I x fun r => r = .ok ()) (hf : Ensures I (f ()) S) : Ensures I (x >>= f) S := by
  refine Ensures.bind hx (fun _ _ => hf) ?_
  intro e h
  cases h

/-- The rest runs on any store with the invariant. -/
lemma ensures_stored_bind {f : ω → Engine σ ω β} (hf : ∀ c, I c → Ensures I (f c) S) :
    Ensures I (stored >>= f) S :=
  Yields.bind ensures_stored hf

/-- A pure part that succeeds. -/
lemma ensures_lift_ok {r : Except Error α} {a : α} (hr : r = .ok a) (hf : Ensures I (f a) S) :
    Ensures I (liftM r >>= f) S := by
  rw [hr]
  exact Yields.bind (ensures_lift ⟨a, rfl, rfl⟩) fun _ h => h ▸ hf

lemma ensures_lift_error {r : Except Error α} (hr : r = .error e) (h : S (.error e)) :
    Ensures I (liftM r >>= f) S := by
  rw [hr]
  exact fun _ hs => ⟨h, hs⟩

/-- Nothing runs after a failure. -/
lemma Ensures.bind_error (hx : Ensures I x fun r => r = .error e) :
    Ensures I (x >>= f) fun r => r = .error e := by
  refine Ensures.bind hx ?_ ?_
  · intro a ha
    cases ha
  · rintro e' he
    rw [Except.error.inj he]

/-- A check that ends the computation if it fails. -/
lemma ensures_check {c : Prop} [Decidable c] {f : Unit → Engine σ ω β} (herror : c → S (.error e))
    (hok : ¬c → Ensures I (f ()) S) : Ensures I (if c then throw e >>= f else f ()) S := by
  split
  · next h => exact fun _ hs => ⟨herror h, hs⟩
  · next h => exact hok h

lemma returns_pure {P : α → Prop} {a : α} (h : P a) : Returns I (pure a : Engine σ ω α) P := by
  refine ensures_pure ?_
  intro b hb
  rwa [← Except.ok.inj hb]

lemma returns_throw {P : α → Prop} : Returns I (throw e : Engine σ ω α) P := by
  refine ensures_throw ?_
  intro b hb
  cases hb

lemma Returns.bind {P : α → Prop} {P' : β → Prop} (hx : Returns I x P)
    (hf : ∀ a, P a → Returns I (f a) P') : Returns I (x >>= f) P' := by
  refine Ensures.bind hx (fun a ha => hf a (ha a rfl)) ?_
  intro e _ b hb
  cases hb

lemma Keeps.returns_bind {P' : β → Prop} (hx : Keeps I x) (hf : ∀ a, Returns I (f a) P') :
    Returns I (x >>= f) P' := by
  refine Ensures.bind hx (fun a _ => hf a) ?_
  intro e _ b hb
  cases hb

lemma Yields.returns {P : α → Prop} (h : Yields I x P) : Returns I x P := by
  refine Ensures.mono h ?_
  rintro r ⟨b, rfl, hb⟩ a ha
  rwa [← Except.ok.inj ha]

lemma Keeps.bind (hx : Keeps I x) (hf : ∀ a, Keeps I (f a)) : Keeps I (x >>= f) :=
  Ensures.bind hx (fun a _ => hf a) fun _ _ => trivial

lemma keeps_pure (a : α) : Keeps I (pure a : Engine σ ω α) := ensures_pure trivial

lemma keeps_throw (e : Error) : Keeps I (throw e : Engine σ ω α) := ensures_throw trivial

lemma keeps_lift (r : Except Error α) : Keeps I (liftM r : Engine σ ω α) := ensures_lift trivial

lemma keeps_report (es : List Event) : Keeps I (report es : Engine σ ω Unit) :=
  (ensures_report es).keeps

lemma keeps_stored : Keeps I (stored : Engine σ ω ω) := ensures_stored.keeps

/-! ### Randomness -/

variable [RandomSource σ]

lemma keeps_drawWord : Keeps I (drawWord : Engine σ ω UInt64) := fun _ hs => ⟨trivial, hs⟩

lemma keeps_drawBytes (n : ℕ) : Keeps I (drawBytes n : Engine σ ω (Vector UInt8 n)) := by
  intro s hs
  rw [run_drawBytes]
  exact ⟨trivial, hs⟩

omit [RandomSource σ] in
/-- What a sampler returns has been accepted. -/
lemma returns_sample {accept : α → Option β} (hx : Keeps I x) (n : ℕ) :
    Returns I (sample x accept e n) fun b => ∃ a, accept a = some b := by
  induction n with
  | zero => exact returns_throw
  | succ n ih =>
    refine hx.returns_bind ?_
    intro a
    rcases ha : accept a with _ | b
    · exact ih
    · exact returns_pure ⟨a, ha⟩

lemma keeps_nonzeroWord (n : ℕ) : Keeps I (nonzeroWord n : Engine σ ω UInt64) :=
  (returns_sample keeps_drawWord n).keeps

omit [RandomSource σ] in
lemma isPrivateKey_of_ofPrivateKey {a : U256} {k : Scalar}
    (h : (Scalar.ofPrivateKey a).toOption = some k) :
    k.isPrivateKey = true ∧ k.cachedInverse = none := by
  unfold Scalar.ofPrivateKey requireScalar require at h
  rcases hz : a.isZero
  · rcases hc : orderModulus.contains a
    · rw [hz, hc] at h
      cases h
    · rw [hz, hc] at h
      obtain rfl := Option.some.inj h
      simp [Scalar.isPrivateKey, hz, hc]
  · rw [hz] at h
    cases h

/-- A scalar that has been drawn is a private key, and remembers nothing. -/
lemma returns_randomScalar (n : ℕ) :
    Returns I (randomScalar n : Engine σ ω Scalar) fun k =>
      k.isPrivateKey = true ∧ k.cachedInverse = none := by
  refine (returns_sample (keeps_drawBytes _) n).mono ?_
  intro r hr k hk
  obtain ⟨b, hb⟩ := hr k hk
  exact isPrivateKey_of_ofPrivateKey hb

/-- A mask that has been drawn is canonical and not zero. -/
lemma returns_randomMask :
    Returns I (randomMask : Engine σ ω FieldElement) fun a =>
      a.IsCanonical ∧ a.isZero = false := by
  refine (returns_sample (keeps_drawBytes _) _).mono ?_
  intro r hr a ha
  obtain ⟨b, hb⟩ := hr a ha
  simp only at hb
  split at hb
  · cases hb
  · next hz =>
    obtain rfl := Option.some.inj hb
    exact ⟨fieldModulus.toNat_reduce_lt _, Bool.eq_false_iff.mpr hz⟩

end Secp256k1.Engine
