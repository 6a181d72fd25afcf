import Secp256k1.Proofs.Acts
import Secp256k1.Proofs.Validations

/-!
How operations move the counters of a context.

An operation moves them by the acts that it gets to, by one signature if it is to make one and
succeeds, and by one verification if it is one. The parts of an operation add up, so that what a
validation can do settles all of them. A counter is one word, so it moves by a number modulo
`2 ^ 64`.
-/

namespace Secp256k1

/-! ### Readings of the counters -/

namespace Counters

/-- From one reading of the counters to the other there have been so many multiplications,
questions to the cache, signatures and verifications. A question ends in a hit or in a miss. -/
structure Moved (a b : Counters) (multiplied asked signed verified : ℕ) : Prop where
  multiplications : b.scalarMultiplications = a.scalarMultiplications + .ofNat multiplied
  questions : ∃ hits misses : ℕ, hits + misses = asked ∧
    b.cacheHits = a.cacheHits + .ofNat hits ∧ b.cacheMisses = a.cacheMisses + .ofNat misses
  signatures : b.signatures = a.signatures + .ofNat signed
  verifications : b.verifications = a.verifications + .ofNat verified

variable {a b c : Counters} {m m' q q' s s' v v' : ℕ}

lemma moved_refl (a : Counters) : a.Moved a 0 0 0 0 where
  multiplications := (UInt64.add_zero _).symm
  questions := ⟨0, 0, rfl, (UInt64.add_zero _).symm, (UInt64.add_zero _).symm⟩
  signatures := (UInt64.add_zero _).symm
  verifications := (UInt64.add_zero _).symm

lemma moved_multiplication (a : Counters) :
    a.Moved { a with scalarMultiplications := a.scalarMultiplications + 1 } 1 0 0 0 :=
  { moved_refl a with multiplications := rfl }

lemma moved_hit (a : Counters) : a.Moved { a with cacheHits := a.cacheHits + 1 } 0 1 0 0 :=
  { moved_refl a with questions := ⟨1, 0, rfl, rfl, (UInt64.add_zero _).symm⟩ }

lemma moved_miss (a : Counters) : a.Moved { a with cacheMisses := a.cacheMisses + 1 } 0 1 0 0 :=
  { moved_refl a with questions := ⟨0, 1, rfl, (UInt64.add_zero _).symm, rfl⟩ }

lemma moved_signature (a : Counters) :
    a.Moved { a with signatures := a.signatures + 1 } 0 0 1 0 :=
  { moved_refl a with signatures := rfl }

lemma moved_verification (a : Counters) :
    a.Moved { a with verifications := a.verifications + 1 } 0 0 0 1 :=
  { moved_refl a with verifications := rfl }

lemma Moved.trans (h : a.Moved b m q s v) (h' : b.Moved c m' q' s' v') :
    a.Moved c (m + m') (q + q') (s + s') (v + v') where
  multiplications := by
    rw [h'.multiplications, h.multiplications, UInt64.ofNat_add, UInt64.add_assoc]
  questions := by
    obtain ⟨hits, misses, rfl, hhits, hmisses⟩ := h.questions
    obtain ⟨hits', misses', rfl, hhits', hmisses'⟩ := h'.questions
    refine ⟨hits + hits', misses + misses', add_add_add_comm _ _ _ _, ?_, ?_⟩
    · rw [hhits', hhits, UInt64.ofNat_add, UInt64.add_assoc]
    · rw [hmisses', hmisses, UInt64.ofNat_add, UInt64.add_assoc]
  signatures := by rw [h'.signatures, h.signatures, UInt64.ofNat_add, UInt64.add_assoc]
  verifications := by rw [h'.verifications, h.verifications, UInt64.ofNat_add, UInt64.add_assoc]

/-- Hits and misses from the start. -/
lemma Moved.exists_hits_misses (h : Moved {} b m q s v) :
    ∃ hits misses : ℕ, hits + misses = q ∧ b.cacheHits = .ofNat hits ∧
      b.cacheMisses = .ofNat misses := by
  obtain ⟨hits, misses, hsum, hhits, hmisses⟩ := h.questions
  exact ⟨hits, misses, hsum, hhits.trans (UInt64.zero_add _), hmisses.trans (UInt64.zero_add _)⟩

/-- Counters that began at zero show the numbers, each in one word. -/
lemma Moved.shows (h : Moved {} b m q s v) :
    b.scalarMultiplications = .ofNat m ∧ b.cacheHits + b.cacheMisses = .ofNat q ∧
      b.signatures = .ofNat s ∧ b.verifications = .ofNat v := by
  obtain ⟨hits, misses, rfl, hhits, hmisses⟩ := h.exists_hits_misses
  refine ⟨h.multiplications.trans (UInt64.zero_add _), ?_, h.signatures.trans (UInt64.zero_add _),
    h.verifications.trans (UInt64.zero_add _)⟩
  rw [hhits, hmisses, UInt64.ofNat_add]

/-- Neither hits nor misses go round below `2 ^ 64` questions. -/
lemma Moved.toNat_hits_add_misses (h : Moved {} b m q s v) (hq : q < 2 ^ 64) :
    b.cacheHits.toNat + b.cacheMisses.toNat = q := by
  obtain ⟨hits, misses, rfl, hhits, hmisses⟩ := h.exists_hits_misses
  rw [hhits, hmisses, UInt64.toNat_ofNat_of_lt' ((Nat.le_add_right _ _).trans_lt hq),
    UInt64.toNat_ofNat_of_lt' ((Nat.le_add_left _ _).trans_lt hq)]

end Counters

namespace Context

open Engine

variable {σ α β : Type} {c d : Context} {p : Point}

/-! ### Inspections -/

/-- Whether an act asks the cache, under strict validation. -/
def Act.isInspection : Act → Bool
  | .validation p => !p.isInfinity
  | .multiplication => false

/-- How often the acts ask the cache. -/
def inspections (config : Config) (acts : List Act) : ℕ :=
  if config.validation = .strict then acts.countP Act.isInspection else 0

@[simp] lemma inspections_nil (config : Config) : inspections config [] = 0 := by
  simp [inspections]

lemma inspections_append (config : Config) (u v : List Act) :
    inspections config (u ++ v) = inspections config u + inspections config v := by
  unfold inspections
  split
  · exact List.countP_append
  · rfl

lemma inspections_of_inspects (h : c.Inspects p) : inspections c.config [.validation p] = 1 := by
  rw [inspections, if_pos h.1, List.countP_singleton, Act.isInspection, h.2]
  rfl

lemma inspections_of_not_inspects (h : ¬c.Inspects p) :
    inspections c.config [.validation p] = 0 := by
  unfold inspections
  split
  · next hs =>
    have hp : p.isInfinity = true := by
      rw [← Bool.not_eq_false]
      exact fun hp => h ⟨hs, hp⟩
    rw [List.countP_singleton, Act.isInspection, hp]
    rfl
  · rfl

/-! ### Balances -/

/-- The counters have moved by the acts, and by so many signatures and verifications. -/
structure Balance (c d : Context) (acts : List Act) (signed verified : ℕ) : Prop where
  config : d.config = c.config
  moved : c.counters.Moved d.counters (acts.count .multiplication) (inspections c.config acts)
    signed verified
  cache : CacheExtends c.cache d.cache

/-- Nothing but the counters has changed. -/
lemma balance_of_moved {n : Counters} {acts : List Act} {asked signed verified : ℕ}
    (hasked : inspections c.config acts = asked)
    (h : c.counters.Moved n (acts.count .multiplication) asked signed verified) :
    Balance c { c with counters := n } acts signed verified where
  config := rfl
  moved := by
    rw [hasked]
    exact h
  cache := .refl _

lemma Balance.refl (c : Context) : Balance c c [] 0 0 :=
  balance_of_moved (inspections_nil _) c.counters.moved_refl

lemma Balance.trans {e : Context} {u v : List Act} {m m' n n' : ℕ} (h : Balance c d u m n)
    (h' : Balance d e v m' n') : Balance c e (u ++ v) (m + m') (n + n') where
  config := h'.config.trans h.config
  moved := by
    have hrest := h'.moved
    rw [h.config] at hrest
    rw [List.count_append, inspections_append]
    exact h.moved.trans hrest
  cache := h.cache.trans h'.cache

lemma balance_multiplication (c : Context) :
    Balance c
      { c with counters :=
        { c.counters with scalarMultiplications := c.counters.scalarMultiplications + 1 } }
      [.multiplication] 0 0 :=
  balance_of_moved (by simp [inspections, Act.isInspection]) c.counters.moved_multiplication

lemma balance_signature (c : Context) :
    Balance c { c with counters := { c.counters with signatures := c.counters.signatures + 1 } }
      [] 1 0 :=
  balance_of_moved (inspections_nil _) c.counters.moved_signature

lemma balance_verification (c : Context) :
    Balance c
      { c with counters := { c.counters with verifications := c.counters.verifications + 1 } }
      [] 0 1 :=
  balance_of_moved (inspections_nil _) c.counters.moved_verification

lemma Validated.balance {r : Except Error Unit} (h : Validated c p r d) :
    Balance c d [.validation p] 0 0 := by
  cases h with
  | unasked r h => exact balance_of_moved (inspections_of_not_inspects h) c.counters.moved_refl
  | hit h => exact balance_of_moved (inspections_of_inspects h) c.counters.moved_hit
  | refused h e => exact balance_of_moved (inspections_of_inspects h) c.counters.moved_miss
  | passed h cache hc =>
    have hmiss := balance_of_moved (inspections_of_inspects h) c.counters.moved_miss
    exact ⟨rfl, hmiss.moved, hc⟩

/-! ### Accounts -/

/-- From every state the counters move by the acts, by the signatures that go with the outcome,
and by so many verifications. -/
def Accounts (x : Noted σ α) (signed : Except Error α → ℕ) (verified : ℕ) : Prop :=
  ∀ s, Balance s.store (x.program.run s).2.store (x.acts s) (signed (x.program.run s).1) verified

/-- No signature is made. -/
def unsigned : Except Error α → ℕ := fun _ => 0

/-- A signature is made in case of success. -/
def signedOnce : Except Error α → ℕ
  | .ok _ => 1
  | .error _ => 0

lemma Accounts.bind {x : Noted σ α} {f : α → Noted σ β} {signed : Except Error β → ℕ} {n : ℕ}
    (hx : Accounts x unsigned n) (hf : ∀ a, Accounts (f a) signed 0)
    (herror : ∀ e, signed (.error e) = 0) : Accounts (x >>= f) signed n := by
  intro s
  have h := hx s
  rw [Noted.program_bind, run_bind]
  rcases hr : x.program.run s with ⟨e | a, t⟩ <;> rw [hr] at h <;> dsimp only
  · rw [Noted.acts_bind_of_error hr, herror]
    exact h
  · have hrest := h.trans (hf a t)
    rw [unsigned, zero_add, add_zero] at hrest
    rw [Noted.acts_bind_of_ok hr]
    exact hrest

lemma Accounts.andThen {x : Noted σ α} {f : α → Noted σ β} {n : ℕ} (hx : Accounts x unsigned n)
    (hf : ∀ a, Accounts (f a) unsigned 0) : Accounts (x >>= f) unsigned n :=
  hx.bind hf fun _ => rfl

lemma store_eq_of_keeps {x : Session σ α} (h : ∀ I, Keeps I x) (s : State σ Context) :
    (x.run s).2.store = s.store := (h (· = s.store) s rfl).2

/-- What leaves the context alone needs no account. -/
lemma accounts_quiet {x : Session σ α} (h : ∀ I, Keeps I x) :
    Accounts (.quiet x) unsigned 0 := by
  intro s
  change Balance s.store (x.run s).2.store [] 0 0
  rw [store_eq_of_keeps h]
  exact .refl _

/-- A result may be dropped. -/
lemma Accounts.ignore {x : Noted σ α} {signed : Except Error α → ℕ}
    {signed' : Except Error Unit → ℕ} {n : ℕ} (hx : Accounts x signed n)
    (hok : ∀ a, signed (.ok a) = signed' (.ok ()))
    (herror : ∀ e, signed (.error e) = signed' (.error e)) :
    Accounts (x >>= fun _ => pure ()) signed' n := by
  intro s
  have h : signed' ((x.program.run s).1.map fun _ => ()) = signed (x.program.run s).1 := by
    rcases (x.program.run s).1 with e | a
    · exact (herror e).symm
    · exact (hok a).symm
  have hrun : (x >>= fun _ => pure ()).program.run s = _ := run_bind_pure_unit x.program s
  rw [Noted.acts_bind_pure_unit, hrun, h]
  exact hx s

lemma Accounts.drop {x : Noted σ α} {n : ℕ} (hx : Accounts x unsigned n) :
    Accounts (x >>= fun _ => pure ()) unsigned n := hx.ignore (fun _ => rfl) fun _ => rfl

/-! ### Accounts of the operations -/

section Operations

lemma accounts_validatePoint (p : Point) : Accounts (.validatePoint p : Noted σ Unit) unsigned 0 :=
  fun s => (validated_validatePoint p s).balance

lemma accounts_validatePublicKey (p : Point) :
    Accounts (.validatePublicKey p : Noted σ Unit) unsigned 0 := by
  intro s
  change Balance s.store ((validatePublicKey p).run s).2.store
    (if p.isInfinity then [] else [.validation p]) 0 0
  unfold validatePublicKey
  split
  · exact .refl _
  · exact (validated_validatePoint p s).balance

/-- A multiplication is counted after its point has passed, and before it begins. -/
lemma accounts_multiplication {x : Session σ α} (rest : State σ Context → Session σ α)
    (hx : ∀ s, x.run s =
      (validatePoint p >>= fun _ => countMultiplication >>= fun _ => rest s).run s)
    (h : ∀ s I, Keeps I (rest s)) : Accounts (.multiplication p x) unsigned 0 := by
  intro s
  have hv := (validated_validatePoint p s).balance
  have hprogram : (Noted.multiplication p x).program.run s = _ := hx s
  rw [hprogram, run_bind]
  rcases hr : (validatePoint p).run s with ⟨e | u, t⟩ <;> rw [hr] at hv <;> dsimp only
  · rw [Noted.acts_multiplication_of_error hr]
    exact hv
  · rw [Noted.acts_multiplication_of_ok hr, countMultiplication, count, run_update_bind]
    rw [store_eq_of_keeps (h s)]
    exact hv.trans (balance_multiplication t.store)

lemma accounts_multiplyWith (algorithm : Algorithm) (k : U256) (p : Point) :
    Accounts (.multiplyWith algorithm k p : Noted σ Point) unsigned 0 :=
  accounts_multiplication _ (fun _ => rfl) fun _ _ =>
    keeps_stored.bind fun _ => keeps_perform _ _ _ _

lemma accounts_multiply (k : U256) (p : Point) :
    Accounts (.multiply k p : Noted σ Point) unsigned 0 := by
  refine accounts_multiplication (fun s => stored >>= fun c =>
    Multiplication.perform s.store.config.algorithm k p (c.tableFor p)) (fun _ => rfl) ?_
  exact fun _ _ => keeps_stored.bind fun _ => keeps_perform _ _ _ _

lemma accounts_combine (u₁ u₂ : U256) (p : Point) :
    Accounts (.combine u₁ u₂ p : Noted σ Point) unsigned 0 := by
  refine (accounts_multiply u₁ .generator).andThen fun a => ?_
  refine (accounts_multiply u₂ p).andThen fun b => ?_
  exact accounts_quiet fun _ => keeps_lift _

/-- A verification is counted before anything is looked at. -/
lemma accounts_verify (q : Point) (digest : Ecdsa.Digest) (g : Signature) :
    Accounts (.verify q digest g : Noted σ Unit) unsigned 1 := by
  have hcount : Accounts (.quiet countVerification : Noted σ Unit) unsigned 1 :=
    fun s => balance_verification s.store
  refine hcount.andThen fun _ => ?_
  refine (accounts_quiet fun _ => keeps_lift _).andThen fun _ => ?_
  refine (accounts_validatePublicKey q).andThen fun _ => ?_
  refine (accounts_quiet fun _ => keeps_lift _).andThen fun w => ?_
  refine (accounts_combine _ _ q).andThen fun p => accounts_quiet fun I => ?_
  refine ensures_check (fun _ => trivial) fun _ => ?_
  split
  · exact keeps_throw _
  · exact keeps_pure ()

lemma accounts_accepts (q : Point) (digest : Ecdsa.Digest) (g : Signature) :
    Accounts (.accepts q digest g : Noted σ Bool) unsigned 1 := by
  intro s
  have h := accounts_verify q digest g s
  have hrun : ((Ecdsa.accepts q digest g).run s).2 = ((Ecdsa.verify q digest g).run s).2 := by
    unfold Ecdsa.accepts
    rw [run_tryCatch, run_bind]
    rcases (Ecdsa.verify q digest g).run s with ⟨e | u, t⟩ <;> rfl
  rw [Noted.program_verify, ← hrun] at h
  exact h

lemma accounts_recoverPublicKey (digest : Ecdsa.Digest) (g : Signature) (id : RecoveryId) :
    Accounts (.recoverPublicKey digest g id : Noted σ Point) unsigned 0 := by
  refine (accounts_quiet fun _ => keeps_lift _).andThen fun _ => ?_
  refine (accounts_quiet fun _ => keeps_lift _).andThen fun p => ?_
  refine (accounts_quiet fun _ => keeps_lift _).andThen fun w => ?_
  refine (accounts_combine _ _ p).andThen fun q => accounts_quiet fun I => ?_
  exact ensures_check (fun _ => trivial) fun _ => keeps_pure q

/-- A point that is put into the cache by hand is no act. -/
lemma accounts_cachePoint (p : Point) :
    Accounts (.quiet (cachePoint p) : Noted σ Unit) unsigned 0 := by
  intro s
  have hrun := run_cachePoint p s
  change Balance s.store ((cachePoint p).run s).2.store [] 0 0
  rcases hc : s.store.cache with _ | t <;> rw [hc] at hrun <;> dsimp only at hrun
  · rw [hrun]
    exact .refl _
  · rcases hi : t.insert p with e | ⟨u, es⟩ <;> simp only [hi] at hrun <;> rw [hrun]
    · exact .refl _
    · have hcache : CacheExtends s.store.cache (some u) := by
        rw [hc]
        exact .some (LookupTable.extends_insert hi)
      exact ⟨rfl, (Balance.refl s.store).moved, hcache⟩

variable [RandomSource σ]

lemma accounts_multiplySecret (k : Scalar) (p : Point) :
    Accounts (.multiplySecret k p : Noted σ Point) unsigned 0 := by
  refine accounts_multiplication _ (fun _ => rfl) fun _ I => ?_
  refine keeps_stored.bind fun c => (keeps_report _).bind fun _ => ?_
  split
  · exact keeps_perform _ _ _ _
  · exact keeps_lift _
  · exact keeps_performBlinded _ _ _
  · exact (keeps_randomize p).bind fun r => keeps_performBlinded _ _ _

lemma accounts_publicKey (d : Scalar) :
    Accounts (.publicKey d : Noted σ Point) unsigned 0 := by
  refine (accounts_quiet fun _ => keeps_lift _).andThen fun _ => ?_
  refine (accounts_multiplySecret d .generator).andThen fun q => accounts_quiet fun I => ?_
  exact ensures_check (fun _ => trivial) fun _ => keeps_pure q

lemma accounts_generate : Accounts (.generate : Noted σ KeyPair) unsigned 0 := by
  refine (accounts_quiet fun _ => keeps_stored).andThen fun c => ?_
  refine (accounts_quiet fun _ => (returns_randomScalar _).keeps).andThen fun d => ?_
  refine (accounts_publicKey d).andThen fun q => ?_
  exact accounts_quiet fun _ => (keeps_report _).bind fun _ => keeps_pure _

/-- Only the attempt that ends with a signature counts one. The induction is on the attempts that
are left. -/
lemma accounts_signAttempts (d e : U256) (attempts remaining : ℕ) :
    Accounts (.signAttempts d e attempts remaining : Noted σ Ecdsa.Signed) signedOnce 0 := by
  induction remaining with
  | zero => exact fun s => .refl _
  | succ remaining ih =>
    refine Accounts.bind (accounts_quiet fun _ => (returns_randomScalar _).keeps) (fun k => ?_)
      fun _ => rfl
    refine Accounts.bind (accounts_multiplySecret k .generator) (fun p => ?_) fun _ => rfl
    refine Accounts.bind (accounts_quiet fun _ => keeps_lift _) (fun r => ?_) fun _ => rfl
    rcases r with g | cause
    · exact fun s => balance_signature s.store
    · exact Accounts.bind (accounts_quiet fun _ => keeps_report _) (fun _ => ih) fun _ => rfl

lemma accounts_signRecoverable (d : Scalar) (digest : Ecdsa.Digest) :
    Accounts (.signRecoverable d digest : Noted σ Ecdsa.Signed) signedOnce 0 := by
  refine Accounts.bind (accounts_quiet fun _ => keeps_lift _) (fun _ => ?_) fun _ => rfl
  refine Accounts.bind (accounts_quiet fun _ => keeps_stored) (fun c => ?_) fun _ => rfl
  exact accounts_signAttempts _ _ _ _

end Operations

end Context

end Secp256k1
