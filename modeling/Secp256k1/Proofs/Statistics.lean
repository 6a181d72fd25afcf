import Secp256k1.Proofs.Accounts
import Secp256k1.Proofs.BoundedMap
import Secp256k1.Proofs.Trust

/-!
What the counters of a context say.

Each call moves the counters by its acts and by what it is a call for. So after any calls, whatever
became of them, the counters are what the calls and their acts add up to, modulo `2 ^ 64`. A call
can multiply more than once, so that fewer than `2 ^ 64` calls can take the counter of
multiplications round.
-/

namespace Secp256k1.Context

open Engine

variable {σ α : Type} {c d : Context} {p : Point}

/-! ### One call -/

/-- A call that has been made, the acts that it got to, and what came of it. -/
structure Entry where
  call : Call
  acts : List Act
  outcome : Except Error Unit

namespace Entry

/-- A signature was made. -/
def signed : Entry → Bool
  | ⟨.sign _ _, _, .ok _⟩ => true
  | _ => false

/-- A signature was checked, whatever the verdict is. -/
def verified : Entry → Bool
  | ⟨.verify _ _ _, _, _⟩ | ⟨.accepts _ _ _, _, _⟩ => true
  | _ => false

/-- The caller looked a point up in the cache. -/
def lookedUp : Entry → Bool
  | ⟨.cachedPoint _, _, _⟩ => true
  | _ => false

/-- The caller emptied the cache. -/
def cleared : Entry → Bool
  | ⟨.clearCache, _, _⟩ => true
  | _ => false

end Entry

/-- How an entry moves the counters and the cache. -/
structure Posted (c d : Context) (e : Entry) : Prop where
  config : d.config = c.config
  moved : c.counters.Moved d.counters (e.acts.count .multiplication)
    (inspections c.config e.acts + if c.cache.isSome then e.lookedUp.toNat else 0)
    e.signed.toNat e.verified.toNat
  cache : Option.Rel
    (fun t u => u.lookups = (if e.cleared then 0 else t.lookups + .ofNat e.lookedUp.toNat) ∧
      (t.Counted → u.Counted)) c.cache d.cache

section Calls

variable [RandomSource σ] {signed : Except Error Unit → ℕ} {n : ℕ}

/-- The entry of a call. -/
def Call.entry (call : Call) (s : State σ Context) : Entry :=
  ⟨call, call.noted.acts s, (call.perform.run s).1⟩

/-- The entry of a call that does not ask for the cache itself. -/
lemma Call.posted_of_accounts (call : Call) (h : Accounts (call.noted : Noted σ Unit) signed n)
    (s : State σ Context) (hsigned : signed (call.perform.run s).1 = (call.entry s).signed.toNat)
    (hverified : n = (call.entry s).verified.toNat) (hlooked : (call.entry s).lookedUp = false)
    (hcleared : (call.entry s).cleared = false) :
    Posted s.store (call.perform.run s).2.store (call.entry s) := by
  have hb := h s
  rw [Call.program_noted, hsigned, hverified] at hb
  refine ⟨hb.config, ?_, ?_⟩
  · rw [hlooked, Bool.toNat_false, ite_self, add_zero]
    exact hb.moved
  · rw [hlooked, hcleared]
    refine CacheExtends.mono hb.cache fun t u htu => ⟨?_, htu.counted⟩
    exact htu.lookups.trans (UInt64.add_zero _).symm

lemma Call.posted_cachedPoint (p : Point) (s : State σ Context) :
    Posted s.store ((Call.cachedPoint p).perform.run s).2.store ((Call.cachedPoint p).entry s) := by
  have hrun : ((Call.cachedPoint p).perform.run s).2.store =
      ((Context.cachedPoint p).run s).2.store :=
    congrArg (fun r => r.2.store) (run_bind_pure_unit (Context.cachedPoint p) s)
  have hacts : ((Call.cachedPoint p).entry s).acts = [] :=
    Noted.acts_bind_pure_unit (.quiet (Context.cachedPoint p)) s
  have hrest := run_cachedPoint p s
  rw [hrun]
  rcases hc : s.store.cache with _ | t <;> rw [hc] at hrest <;> dsimp only at hrest
  · rw [hrest]
    refine ⟨rfl, ?_, ?_⟩
    · rw [hacts, hc, inspections_nil]
      exact s.store.counters.moved_refl
    · rw [hc]
      exact .none
  · have hcache : Option.Rel (fun t u => u.lookups = t.lookups + 1 ∧ (t.Counted → u.Counted))
        s.store.cache (some (t.lookup p).2) := by
      rw [hc]
      exact .some ⟨LookupTable.lookups_lookup t p, fun h => h.lookup p⟩
    split at hrest <;> rw [hrest] <;> refine ⟨rfl, ?_, hcache⟩ <;>
      rw [hacts, hc, inspections_nil]
    · exact s.store.counters.moved_hit
    · exact s.store.counters.moved_miss

lemma Call.posted_clearCache (s : State σ Context) :
    Posted s.store (Call.clearCache.perform.run s).2.store (Call.clearCache.entry s) := by
  refine ⟨rfl, ?_, ?_⟩
  · change s.store.counters.Moved s.store.counters 0 (inspections _ [] + ite _ 0 0) 0 0
    rw [inspections_nil, ite_self]
    exact s.store.counters.moved_refl
  · change Option.Rel _ s.store.cache (s.store.cache.map (·.clear))
    rcases s.store.cache with _ | t
    · exact .none
    · exact .some ⟨rfl, fun _ => LookupTable.counted_replicate _ _ _⟩

/-- **What a call does to the counters** is what its entry says. -/
theorem Call.posted (call : Call) (s : State σ Context) :
    Posted s.store (call.perform.run s).2.store (call.entry s) := by
  cases call with
  | validatePoint p =>
    exact (validatePoint p).posted_of_accounts (accounts_validatePoint p) s rfl rfl rfl rfl
  | validatePublicKey p =>
    exact (validatePublicKey p).posted_of_accounts (accounts_validatePublicKey p) s rfl rfl rfl rfl
  | multiply k p =>
    exact (multiply k p).posted_of_accounts (accounts_multiply k p).drop s rfl rfl rfl rfl
  | multiplyWith algorithm k p =>
    exact (multiplyWith algorithm k p).posted_of_accounts
      (accounts_multiplyWith algorithm k p).drop s rfl rfl rfl rfl
  | multiplyGenerator k =>
    exact (multiplyGenerator k).posted_of_accounts (accounts_multiply k .generator).drop s
      rfl rfl rfl rfl
  | multiplySecret k p =>
    exact (multiplySecret k p).posted_of_accounts (accounts_multiplySecret k p).drop s
      rfl rfl rfl rfl
  | cachePoint p =>
    exact (cachePoint p).posted_of_accounts (accounts_cachePoint p) s rfl rfl rfl rfl
  | cachedPoint p => exact posted_cachedPoint p s
  | clearCache => exact posted_clearCache s
  | derivePublicKey d =>
    exact (derivePublicKey d).posted_of_accounts (accounts_publicKey d).drop s rfl rfl rfl rfl
  | generateKeyPair =>
    exact generateKeyPair.posted_of_accounts accounts_generate.drop s rfl rfl rfl rfl
  | sign d digest =>
    have h : Accounts ((sign d digest).noted : Noted σ Unit) signedOnce 0 :=
      (accounts_signRecoverable d digest).ignore (fun _ => rfl) fun _ => rfl
    refine (sign d digest).posted_of_accounts h s ?_ rfl rfl rfl
    unfold entry
    cases ((sign d digest).perform.run s).1 <;> rfl
  | verify q digest g =>
    exact (verify q digest g).posted_of_accounts (accounts_verify q digest g) s rfl rfl rfl rfl
  | accepts q digest g =>
    exact (accepts q digest g).posted_of_accounts (accounts_accepts q digest g).drop s
      rfl rfl rfl rfl
  | recoverPublicKey digest g id =>
    exact (recoverPublicKey digest g id).posted_of_accounts
      (accounts_recoverPublicKey digest g id).drop s rfl rfl rfl rfl

end Calls

/-! ### Many calls -/

/-- The calls that have been made on a context with the given settings, the latest first. The
arguments may be any, and the source of randomness may be another one for each call. -/
inductive History (config : Config) : List Entry → Context → Prop
  | create {σ ω : Type} (s : State σ ω) {c : Context} (h : ((create config).run s).1 = .ok c) :
      History config [] c
  | call {σ : Type} [RandomSource σ] {entries : List Entry} (call : Call) (s : State σ Context)
      (h : History config entries s.store) :
      History config (call.entry s :: entries) (call.perform.run s).2.store

/-- What has happened since the caller emptied the cache last. -/
def sinceCleared (entries : List Entry) : List Entry := entries.takeWhile fun e => !e.cleared

/-- How often a point has been multiplied. -/
def multiplications (entries : List Entry) : ℕ := (entries.flatMap Entry.acts).count .multiplication

/-- How often the cache has been asked: by the caller, if there is one, and by validations. -/
def timesAsked (config : Config) (entries : List Entry) : ℕ :=
  (if config.cacheCapacity.isSome then entries.countP Entry.lookedUp else 0) +
    inspections config (entries.flatMap Entry.acts)

/-- The counters are what the entries add up to. -/
structure Exact (config : Config) (entries : List Entry) (c : Context) : Prop where
  settings : c.config = config
  moved : Counters.Moved {} c.stats (multiplications entries) (timesAsked config entries)
    (entries.countP Entry.signed) (entries.countP Entry.verified)
  cache : c.cache.isSome = config.cacheCapacity.isSome
  lookups : ∀ t ∈ c.cache, t.lookups = .ofNat ((sinceCleared entries).countP Entry.lookedUp)
  counted : ∀ t ∈ c.cache, t.Counted

variable {config : Config} {entries : List Entry} {e : Entry}

lemma countP_cons_eq_add_toNat (f : Entry → Bool) (e : Entry) (entries : List Entry) :
    (e :: entries).countP f = entries.countP f + (f e).toNat := by
  rw [List.countP_cons]
  cases f e <;> rfl

/-- A new context has nothing to count. -/
lemma IsNew.exact (h : IsNew config c) : Exact config [] c := by
  have hcache : ∀ t ∈ c.cache, t.lookups = 0 ∧ t.Counted := by
    intro t ht
    obtain ⟨n, hn⟩ := h.cache t ht
    obtain ⟨-, rfl⟩ := LookupTable.withCapacity_eq_ok hn
    exact ⟨rfl, LookupTable.counted_replicate _ _ _⟩
  have hasked : timesAsked config [] = 0 := by simp [timesAsked]
  constructor
  case settings => exact h.settings
  case moved =>
    rw [Context.stats, h.counters, hasked]
    exact Counters.moved_refl {}
  case cache => exact h.isSome_cache
  case lookups => exact fun t ht => (hcache t ht).1
  case counted => exact fun t ht => (hcache t ht).2

lemma multiplications_cons (e : Entry) (entries : List Entry) :
    multiplications (e :: entries) = multiplications entries + e.acts.count .multiplication := by
  rw [multiplications, List.flatMap_cons, List.count_append, add_comm]
  rfl

lemma timesAsked_cons (config : Config) (e : Entry) (entries : List Entry) :
    timesAsked config (e :: entries) = timesAsked config entries + (inspections config e.acts +
      if config.cacheCapacity.isSome then e.lookedUp.toNat else 0) := by
  unfold timesAsked
  rw [List.flatMap_cons, inspections_append, countP_cons_eq_add_toNat]
  split <;> omega

/-- One more entry. -/
lemma Exact.post (h : Exact config entries c) (hp : Posted c d e) :
    Exact config (e :: entries) d := by
  have hcache := hp.cache
  have hentry : ∀ u ∈ d.cache, ∃ t ∈ c.cache,
      u.lookups = (if e.cleared then 0 else t.lookups + .ofNat e.lookedUp.toNat) ∧
        (t.Counted → u.Counted) := by
    intro u hu
    rw [Option.mem_def.mp hu] at hcache
    generalize hc : c.cache = o at hcache
    cases hcache with
    | some ht => exact ⟨_, rfl, ht⟩
  constructor
  case settings => exact hp.config.trans h.settings
  case moved =>
    have hmoved := hp.moved
    rw [h.settings, h.cache] at hmoved
    rw [multiplications_cons, timesAsked_cons, countP_cons_eq_add_toNat, countP_cons_eq_add_toNat]
    exact h.moved.trans hmoved
  case cache =>
    rw [← h.cache]
    generalize c.cache = o, d.cache = o' at hcache
    cases hcache <;> rfl
  case lookups =>
    intro u hu
    obtain ⟨t, ht, hl, -⟩ := hentry u hu
    unfold sinceCleared
    rw [hl, h.lookups t ht, sinceCleared, List.takeWhile_cons]
    cases e.cleared
    · exact (UInt64.ofNat_add _ _).symm.trans
        (congrArg UInt64.ofNat (countP_cons_eq_add_toNat Entry.lookedUp e _).symm)
    · rfl
  case counted =>
    intro u hu
    obtain ⟨t, ht, -, hcount⟩ := hentry u hu
    exact hcount (h.counted t ht)

/-- What the cache shows. -/
lemma Exact.lookupStats (h : Exact config entries c) :
    c.lookupStats.isSome = config.cacheCapacity.isSome ∧ ∀ t ∈ c.lookupStats,
      t.lookups = .ofNat ((sinceCleared entries).countP Entry.lookedUp) ∧
        t.entries ≤ t.capacity := by
  refine ⟨Option.isSome_map.trans h.cache, fun u hu => ?_⟩
  obtain ⟨t, ht, rfl⟩ := Option.map_eq_some_iff.mp hu
  exact ⟨h.lookups t ht, (h.counted t ht).le_size⟩

/-- **After any calls** the counters are exact. -/
theorem History.exact (h : History config entries c) : Exact config entries c := by
  induction h with
  | create s h => exact (isNew_of_create h).exact
  | call call s _ ih => exact ih.post (call.posted s)

/-- **The statistics of a context are exact** after any calls, whatever became of them, modulo
`2 ^ 64`. The acts are those of the operations. Fewer than `2 ^ 64` calls do not take the counters
of signatures, verifications and look-ups round, and no counter goes round while its number stays
below. The table never has more entries than slots, shows the look-ups since it was last emptied,
and stays as it is if a point is refused. -/
theorem statistics_exact (h : History config entries c) :
    (∀ {σ : Type} [RandomSource σ] (call : Call),
      (call.noted : Noted σ Unit).program = call.perform) ∧
    c.stats.signatures = .ofNat (entries.countP Entry.signed) ∧
    c.stats.verifications = .ofNat (entries.countP Entry.verified) ∧
    c.stats.scalarMultiplications = .ofNat (multiplications entries) ∧
    c.stats.cacheHits + c.stats.cacheMisses = .ofNat (timesAsked config entries) ∧
    c.lookupStats.isSome = config.cacheCapacity.isSome ∧
    (∀ t ∈ c.lookupStats, t.lookups = .ofNat ((sinceCleared entries).countP Entry.lookedUp) ∧
      t.entries ≤ t.capacity) ∧
    (entries.length < 2 ^ 64 →
      c.stats.signatures.toNat = entries.countP Entry.signed ∧
      c.stats.verifications.toNat = entries.countP Entry.verified ∧
      ∀ t ∈ c.lookupStats, t.lookups.toNat = (sinceCleared entries).countP Entry.lookedUp) ∧
    (multiplications entries < 2 ^ 64 →
      c.stats.scalarMultiplications.toNat = multiplications entries) ∧
    (timesAsked config entries < 2 ^ 64 →
      c.stats.cacheHits.toNat + c.stats.cacheMisses.toNat = timesAsked config entries) ∧
    ∀ {σ : Type} (s : State σ Context) (p : Point) (why : Error),
      ((validatePoint p).run s).1 = .error why →
      ((validatePoint p).run s).2.store.cache = s.store.cache ∧
        ((validatePoint p).run s).2.store.stats.scalarMultiplications =
          s.store.stats.scalarMultiplications := by
  have hexact := h.exact
  obtain ⟨hmultiplications, hasked, hsigned, hverified⟩ := hexact.moved.shows
  obtain ⟨hcache, hlookups⟩ := hexact.lookupStats
  refine ⟨Call.program_noted, hsigned, hverified, hmultiplications, hasked, hcache, hlookups,
    fun hlen => ⟨?_, ?_, ?_⟩, ?_, hexact.moved.toNat_hits_add_misses,
    fun s p why => validatePoint_eq_error⟩
  · rw [hsigned]
    exact UInt64.toNat_ofNat_of_lt' (List.countP_le_length.trans_lt hlen)
  · rw [hverified]
    exact UInt64.toNat_ofNat_of_lt' (List.countP_le_length.trans_lt hlen)
  · intro t ht
    have hle : (sinceCleared entries).countP Entry.lookedUp ≤ entries.length :=
      List.countP_le_length.trans (List.takeWhile_prefix _).length_le
    rw [(hlookups t ht).1]
    exact UInt64.toNat_ofNat_of_lt' (hle.trans_lt hlen)
  · intro hlt
    rw [hmultiplications]
    exact UInt64.toNat_ofNat_of_lt' hlt

/-- A stray point is looked for in the cache twice, and it is refused and not multiplied. -/
theorem statistics_exact_fresh :
    let s : State Tape Context := ⟨⟨#[], .zero, 0⟩, [], fresh⟩
    let t := ((Call.multiply .one stray).perform.run s).2
    let c := ((Call.cachedPoint stray).perform.run t).2.store
    let d := ((validatePoint stray).run s).2.store
    c.stats.cacheHits.toNat + c.stats.cacheMisses.toNat = 2 ∧
      c.stats.scalarMultiplications.toNat = 0 ∧ (∀ u ∈ c.lookupStats, u.lookups.toNat = 1) ∧
      ((validatePoint stray).run s).1 = .error (.pointNotOnCurve "CurvePoint::validate") ∧
      d.cache = s.store.cache ∧
      d.stats.scalarMultiplications = s.store.stats.scalarMultiplications := by
  intro s t c d
  have hcreated : History oneSlot [] s.store := .create _ create_oneSlot
  have hmultiplied : History oneSlot [(Call.multiply .one stray).entry s] t.store :=
    .call _ s hcreated
  have h : History oneSlot
      [(Call.cachedPoint stray).entry t, (Call.multiply .one stray).entry s] c :=
    .call _ t hmultiplied
  obtain ⟨-, -, -, -, -, -, -, hcalls, hmultiplications, hasked, hrefused⟩ := statistics_exact h
  obtain ⟨-, -, hlookups⟩ := hcalls (by decide)
  have hstray : ((validatePoint stray).run s).1 =
      .error (.pointNotOnCurve "CurvePoint::validate") := by decide +kernel
  refine ⟨?_, ?_, fun u hu => (hlookups u hu).trans rfl, hstray, hrefused s stray _ hstray⟩
  · exact (hasked (by decide +kernel)).trans (by decide +kernel)
  · exact (hmultiplications (by decide +kernel)).trans (by decide +kernel)

/-! ### Counters that go round -/

section Multiplies

variable {I : Context → Prop} {β : Type} {x : Noted σ α} {f : α → Noted σ β} {m n : ℕ}
  {P : CurvePoint} {g : Signature}

/-- From a store with the invariant the computation multiplies `n` times. -/
def Multiplies (I : Context → Prop) (x : Noted σ α) (n : ℕ) : Prop :=
  ∀ s, I s.store → (x.acts s).count .multiplication = n

lemma multiplies_quiet (x : Session σ α) : Multiplies I (.quiet x) 0 := fun _ _ => rfl

lemma Multiplies.bind {Q : α → Prop} (hx : Multiplies I x m) (hy : Yields I x.program Q)
    (hf : ∀ a, Multiplies I (f a) n) : Multiplies I (x >>= f) (m + n) := by
  intro s hs
  have hfirst := hx s hs
  obtain ⟨⟨a, ha, -⟩, hI⟩ := hy s hs
  rcases hrun : x.program.run s with ⟨o, t⟩
  rw [hrun] at ha hI
  obtain rfl : o = .ok a := ha
  rw [Noted.acts_bind_of_ok hrun, List.count_append, hfirst, hf a t hI]

/-- What has no acts and succeeds is not in the way. -/
lemma Multiplies.after {x : Session σ α} {Q : α → Prop} (hy : Yields I x Q)
    (hf : ∀ a, Multiplies I (f a) n) : Multiplies I (.quiet x >>= f) n := by
  have h := (multiplies_quiet x).bind hy hf
  rwa [zero_add] at h

lemma multiplies_multiply (hI : Invariant I) (k : U256) (hp : p.Denotes P) :
    Multiplies I (.multiply k p : Noted σ Point) 1 := by
  intro s hs
  have hv := (ensures_validatePoint hI hp s hs).1
  rcases hrun : (validatePoint p).run s with ⟨o, t⟩
  rw [hrun] at hv
  obtain rfl : o = .ok () := hv
  have hacts : (Noted.multiply k p).acts s = [.validation p, .multiplication] :=
    Noted.acts_multiplication_of_ok hrun
  rw [hacts]
  rfl

lemma multiplies_combine (hI : Invariant I) (hS : ∀ c, I c → c.Sound) (u₁ u₂ : U256)
    (hp : p.Denotes P) : Multiplies I (.combine u₁ u₂ p : Noted σ Point) 2 := by
  refine (multiplies_multiply hI u₁ Point.denotes_generator).bind (n := 1)
    (yields_multiplyGenerator hI hS u₁) fun a => ?_
  exact (multiplies_multiply hI u₂ hp).bind (yields_multiply hI hS u₂ hp) fun b =>
    multiplies_quiet _

/-- **A verification multiplies twice** if the signature is in range and the key is finite. -/
theorem multiplies_verify (hI : Invariant I) (hS : ∀ c, I c → c.Sound) (hp : p.Denotes P)
    (hP : P ≠ 0) (digest : Ecdsa.Digest) (hg : g.InRange) :
    Multiplies I (.verify p digest g : Noted σ Unit) 2 := by
  have hcount : Yields I (countVerification : Session σ Unit) fun _ => True :=
    (ensures_count hI _).mono fun r hr => ⟨(), hr, trivial⟩
  have hrange : Yields I (g.validate : Session σ Unit) fun _ => True :=
    ensures_lift ⟨(), Signature.validate_of_inRange hg, trivial⟩
  have hkey : Yields I (validatePublicKey p : Session σ Unit) fun _ => True := by
    refine (ensures_validatePublicKey hI hp).mono fun r hr => ⟨(), ?_, trivial⟩
    rwa [if_neg hP] at hr
  have hinspect : Multiplies I (.validatePublicKey p : Noted σ Unit) 0 := by
    intro s _
    change List.count _ (if p.isInfinity then [] else [Act.validation p]) = 0
    split <;> rfl
  obtain ⟨w, hw, -, -⟩ := U256.exists_invert_order hg.toFn_s_ne_zero
  have hinvert : Yields I (orderModulus.invert g.s : Session σ U256) fun _ => True :=
    ensures_lift ⟨w, hw, trivial⟩
  refine .after hcount fun _ => .after hrange fun _ => hinspect.bind (n := 2) hkey fun _ => ?_
  refine .after hinvert fun w => ?_
  exact (multiplies_combine hI hS _ _ hp).bind (Ecdsa.yields_combine hI hS _ _ hp) fun q =>
    multiplies_quiet _

end Multiplies

/-- Any number of verifications of one signature, each of which multiplies twice. -/
lemma exists_history_verify (n : ℕ) :
    ∃ entries c, History .minimal entries c ∧ c.Sound ∧
      entries.map Entry.call =
        .replicate n (.verify .generator Ecdsa.zeroDigest Ecdsa.generatorSignature) ∧
      multiplications entries = 2 * n := by
  induction n with
  | zero =>
    have hnew : History .minimal [] ⟨.minimal, none, none, {}⟩ :=
      .create (⟨(), [], ()⟩ : State Unit Unit) rfl
    exact ⟨[], _, hnew, reachable_minimal.sound, rfl, rfl⟩
  | succ n ih =>
    obtain ⟨entries, c, h, hc, hcalls, hcount⟩ := ih
    let call : Call := .verify .generator Ecdsa.zeroDigest Ecdsa.generatorSignature
    let s : State Tape Context := ⟨⟨#[], .zero, 0⟩, [], c⟩
    have hG : Point.generator.Denotes basePoint := Point.denotes_generator
    have hkeeps := keeps_verify invariant_sound hG.wellFormed Ecdsa.zeroDigest
      Ecdsa.generatorSignature s hc
    have htwice : ((call.entry s).acts).count .multiplication = 2 :=
      multiplies_verify invariant_sound (fun _ h => h) hG basePoint_ne_zero Ecdsa.zeroDigest
        Ecdsa.inRange_generatorSignature s hc
    refine ⟨call.entry s :: entries, _, .call call s h, hkeeps.2, ?_, ?_⟩
    · rw [List.map_cons, hcalls]
      rfl
    · rw [multiplications_cons, hcount, htwice, Nat.mul_succ]

/-- **Fewer than `2 ^ 64` calls take a counter round.** Each of `2 ^ 63` verifications multiplies
twice, and then no multiplication shows. -/
theorem multiplications_wrap :
    ∃ entries c, History .minimal entries c ∧
      entries.map Entry.call = .replicate (2 ^ 63)
        (.verify .generator Ecdsa.zeroDigest Ecdsa.generatorSignature) ∧
      multiplications entries = 2 ^ 64 ∧ c.stats.scalarMultiplications = 0 := by
  obtain ⟨entries, c, h, -, hcalls, hcount⟩ := exists_history_verify (2 ^ 63)
  refine ⟨entries, c, h, hcalls, hcount.trans (by norm_num), ?_⟩
  obtain ⟨hshows, -⟩ := h.exact.moved.shows
  rw [hshows, hcount]
  rfl

end Secp256k1.Context
