import Secp256k1.Proofs.Contexts
import Secp256k1.Proofs.Probing

/-!
What one validation can do to a context.

Under strict validation the cache is asked for the point, and a point that is not there is checked
and may be put in. Otherwise the context is left alone. Whatever a validation is part of, it does
no more than that, so that nothing else needs to look at the cases again.
-/

namespace Secp256k1

open Engine

/-! ### Tables -/

namespace LookupTable

variable {t t' t'' : LookupTable} {p : Point}

/-- The look-ups are the same, and what counts its entries still does. -/
structure Extends (t t' : LookupTable) : Prop where
  lookups : t'.lookups = t.lookups
  counted : t.Counted → t'.Counted

lemma Extends.refl (t : LookupTable) : t.Extends t := ⟨rfl, id⟩

lemma Extends.trans (h : t.Extends t') (h' : t'.Extends t'') : t.Extends t'' :=
  ⟨h'.lookups.trans h.lookups, h'.counted ∘ h.counted⟩

lemma extends_insert {es : List Event} (h : t.insert p = .ok (t', es)) : t.Extends t' := by
  unfold LookupTable.insert at h
  rcases hi : p.isInfinity
  · rw [hi] at h
    rcases hs : t.search p with ⟨i, s⟩ | ⟨i, m⟩ | _ <;> rw [hs] at h
    · obtain ⟨rfl, -⟩ := Prod.mk.inj (Except.ok.inj h)
      exact ⟨rfl, fun ht => ht.overwrite (probe_occupied hs).1 s.touch⟩
    · obtain ⟨rfl, -⟩ := Prod.mk.inj (Except.ok.inj h)
      exact ⟨rfl, fun ht => ht.occupy (probe_eq_free hs).2.2.1 _⟩
    · cases h
  · rw [hi] at h
    cases h

/-- A look-up is counted once, whether it finds anything or not. -/
lemma lookups_lookup (t : LookupTable) (p : Point) : (t.lookup p).2.lookups = t.lookups + 1 := by
  unfold LookupTable.lookup
  dsimp only
  split <;> rfl

lemma Counted.lookup (h : t.Counted) (p : Point) : (t.lookup p).2.Counted := by
  unfold LookupTable.lookup
  simp only
  rcases hf : find? { t with lookups := t.lookups + 1 } p with _ | ⟨i, s⟩
  · exact h
  · unfold find? at hf
    split at hf
    · cases hf
    · split at hf
      · next hs =>
        obtain ⟨rfl, rfl⟩ := Prod.mk.inj (Option.some.inj hf)
        exact Counted.overwrite h (probe_occupied hs).1 _
      · cases hf

lemma counted_replicate (size : ℕ) (lookups hits : UInt64) :
    Counted ⟨Array.replicate size none, 0, lookups, hits⟩ := by
  simp [Counted, Array.countP_replicate]

end LookupTable

namespace Context

variable {σ : Type} {p : Point}

/-! ### One validation -/

/-- Under strict validation a finite point is looked for in the cache. -/
def Inspects (c : Context) (p : Point) : Prop :=
  c.config.validation = .strict ∧ p.isInfinity = false

/-- The cache is there as before, and points may have been put in. -/
abbrev CacheExtends : Option LookupTable → Option LookupTable → Prop :=
  Option.Rel LookupTable.Extends

lemma CacheExtends.refl : (o : Option LookupTable) → CacheExtends o o
  | none => .none
  | some t => .some (.refl t)

lemma CacheExtends.trans {o o' o'' : Option LookupTable} (h : CacheExtends o o')
    (h' : CacheExtends o' o'') : CacheExtends o o'' := by
  cases h with
  | none => exact h'
  | some h =>
    cases h' with
    | some h' => exact .some (h.trans h')

lemma CacheExtends.mono {o o' : Option LookupTable} {R : LookupTable → LookupTable → Prop}
    (h : CacheExtends o o') (hR : ∀ t t', t.Extends t' → R t t') : Option.Rel R o o' := by
  cases h with
  | none => exact .none
  | some h => exact .some (hR _ _ h)

/-- The outcomes of a validation, with the context that it leaves. -/
inductive Validated (c : Context) (p : Point) : Except Error Unit → Context → Prop
  /-- The cache is not asked. -/
  | unasked (r : Except Error Unit) (h : ¬c.Inspects p) : Validated c p r c
  | hit (h : c.Inspects p) :
    Validated c p (.ok ())
      { c with counters := { c.counters with cacheHits := c.counters.cacheHits + 1 } }
  | refused (h : c.Inspects p) (e : Error) :
    Validated c p (.error e)
      { c with counters := { c.counters with cacheMisses := c.counters.cacheMisses + 1 } }
  /-- The point may be remembered. -/
  | passed (h : c.Inspects p) (cache : Option LookupTable) (hc : CacheExtends c.cache cache) :
    Validated c p (.ok ())
      { c with
        cache
        counters := { c.counters with cacheMisses := c.counters.cacheMisses + 1 } }

/-- A point that cannot be remembered leaves the context as it is. -/
lemma run_remember_cases (p : Point) (s : State σ Context) :
    (∃ e, ((remember p).run s).1 = .error e ∧ ((remember p).run s).2.store = s.store) ∨
      ∃ cache, CacheExtends s.store.cache cache ∧ ((remember p).run s).1 = .ok () ∧
        ((remember p).run s).2.store = { s.store with cache } := by
  have hrun := run_remember p s
  rcases hc : s.store.cache with _ | t <;> rw [hc] at hrun
  · dsimp only at hrun
    rw [hrun]
    exact .inr ⟨none, .none, rfl, by rw [← hc]⟩
  · rcases hi : t.insert p with e | ⟨u, es⟩ <;> simp only [hi] at hrun
    · split at hrun <;> rw [hrun]
      · exact .inr ⟨some t, .some (.refl t), rfl, by rw [← hc]⟩
      · exact .inl ⟨e, rfl, rfl⟩
    · rw [hrun]
      exact .inr ⟨some u, .some (LookupTable.extends_insert hi), rfl, rfl⟩

/-- **What a validation can do.** -/
theorem validated_validatePoint (p : Point) (s : State σ Context) :
    Validated s.store p ((validatePoint p).run s).1 ((validatePoint p).run s).2.store := by
  unfold validatePoint
  rw [run_stored_bind]
  split
  · next h => exact .unasked _ fun hi => by cases h.symm.trans hi.1
  · next h => exact .unasked _ fun hi => by cases h.symm.trans hi.1
  · next h =>
    split
    · next hp => exact .unasked _ fun hi => by cases hp.symm.trans hi.2
    · next hp =>
      have hi : s.store.Inspects p := ⟨h, Bool.eq_false_iff.mpr hp⟩
      split
      · exact .hit hi
      · rw [countMiss, count, run_update_bind]
        rcases hv : p.toAffine.validate with e | ⟨⟨⟩⟩
        · exact .refused hi e
        · rw [run_ok_bind]
          obtain ⟨e, he, hs⟩ | ⟨cache, hc, ho, hs⟩ := run_remember_cases p.toAffine
            { s with store := { s.store with
                counters := { s.store.counters with
                  cacheMisses := s.store.counters.cacheMisses + 1 } } }
          · rw [he, hs]
            exact .refused hi e
          · rw [ho, hs]
            exact .passed hi cache hc

/-- A validation that fails leaves the cache alone, and is no multiplication. -/
lemma validatePoint_eq_error {s : State σ Context} {why : Error}
    (h : ((validatePoint p).run s).1 = .error why) :
    ((validatePoint p).run s).2.store.cache = s.store.cache ∧
      ((validatePoint p).run s).2.store.counters.scalarMultiplications =
        s.store.counters.scalarMultiplications := by
  have hv := validated_validatePoint p s
  rw [h] at hv
  generalize ((validatePoint p).run s).2.store = d at hv
  cases hv <;> exact ⟨rfl, rfl⟩

end Context

end Secp256k1
