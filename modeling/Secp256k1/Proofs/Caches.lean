import Secp256k1.LookupTable
import Secp256k1.Proofs.Points

/-!
What a table of points holds.

Storing a point adds it and nothing else, looking a point up changes counters only, and points
leave the table all at once. A point is found exactly if its affine form is what some slot
holds.
-/

namespace Secp256k1.LookupTable

/-- Some slot holds the point. -/
def Stores (t : LookupTable) (q : Point) : Prop :=
  ∃ (i : ℕ) (s : Slot), t.slots[i]? = some (some s) ∧ s.point = q

/-- Every slot holds a finite point in affine form, as it is handed in by `insert`. -/
structure Regular (t : LookupTable) : Prop where
  wellFormed : ∀ q, t.Stores q → q.WellFormed
  affine : ∀ q, t.Stores q → q.form = .affine

variable {t t' : LookupTable} {p q : Point} {hash : UInt64} {i j k m n : ℕ} {s u : Slot}

/-! ### Slots -/

/-- Slot `i` is taken by `s`. -/
def Holds (t : LookupTable) (i : ℕ) (s : Slot) : Prop := t.slots[i]? = some (some s)

lemma Holds.lt_size (h : t.Holds i s) : i < t.slots.size := (Array.getElem?_eq_some_iff.mp h).1

lemma Holds.unique (h : t.Holds i s) (h' : t.Holds i u) : s = u :=
  Option.some.inj (Option.some.inj (h.symm.trans h'))

lemma not_holds_replicate (size entries : ℕ) (lookups hits : UInt64) (i : ℕ) (s : Slot) :
    ¬Holds ⟨Array.replicate size none, entries, lookups, hits⟩ i s := by
  intro h
  unfold Holds at h
  rw [Array.getElem?_replicate] at h
  split at h <;> cases h

/-- The table with `u` in slot `i`. -/
def put (t : LookupTable) (i : ℕ) (u : Slot) (entries : ℕ) : LookupTable :=
  { t with slots := t.slots.setIfInBounds i (some u), entries }

lemma touch_eq_put (t : LookupTable) (i : ℕ) (s : Slot) :
    t.touch i s = t.put i s.touch t.entries := rfl

@[simp] lemma size_put (t : LookupTable) (i : ℕ) (u : Slot) (n : ℕ) :
    (t.put i u n).slots.size = t.slots.size := by simp [put]

lemma holds_put (hi : i < t.slots.size) :
    (t.put i u n).Holds j s ↔ j = i ∧ s = u ∨ j ≠ i ∧ t.Holds j s := by
  unfold Holds put
  rcases eq_or_ne j i with rfl | hne
  · rw [Array.getElem?_setIfInBounds_self_of_lt hi]
    simp [eq_comm]
  · rw [Array.getElem?_setIfInBounds_ne hne.symm]
    simp [hne]

/-- Writing a slot puts its point in, and may take the one out that it held. -/
lemma stores_put (hi : i < t.slots.size) :
    (t.put i u n).Stores q ↔ q = u.point ∨ ∃ j s, j ≠ i ∧ t.Holds j s ∧ s.point = q := by
  constructor
  · rintro ⟨j, s, hs, rfl⟩
    rcases (holds_put hi).mp hs with ⟨-, rfl⟩ | ⟨hj, hs⟩
    · exact .inl rfl
    · exact .inr ⟨j, s, hj, hs, rfl⟩
  · rintro (rfl | ⟨j, s, hj, hs, rfl⟩)
    · exact ⟨i, u, (holds_put hi).mpr (.inl ⟨rfl, rfl⟩), rfl⟩
    · exact ⟨j, s, (holds_put hi).mpr (.inr ⟨hj, hs⟩), rfl⟩

/-! ### Searching -/

/-- The slot that is `k` after the one of the hash. -/
def slotAfter (t : LookupTable) (hash : UInt64) (k : ℕ) : ℕ := (hash.toNat + k) % t.slots.size

/-- The search for `p` goes past the slot that is `k` after the one of the hash. -/
def Passes (t : LookupTable) (hash : UInt64) (p : Point) (k : ℕ) : Prop :=
  ∃ s, t.Holds (t.slotAfter hash k) s ∧ s.holds hash p = false

lemma probe_occupied (h : t.probe hash p n k = .occupied i s) :
    t.slots[i]? = some (some s) ∧ s.holds hash p = true := by
  induction n generalizing k with
  | zero => cases h
  | succ n ih =>
    unfold probe at h
    simp only at h
    split at h
    · cases h
    · cases h
    · next slot hslot =>
      split at h
      · next hold =>
        obtain ⟨rfl, rfl⟩ := Outcome.occupied.inj h
        exact ⟨hslot, hold⟩
      · exact ih h

/-- A search that ends at a free slot has passed all slots before it. -/
lemma probe_eq_free (h : t.probe hash p n k = .free i m) :
    (k ≤ m ∧ m < k + n) ∧ t.slotAfter hash m = i ∧ t.slots[i]? = some none ∧
      ∀ l, k ≤ l → l < m → t.Passes hash p l := by
  induction n generalizing k with
  | zero => cases h
  | succ n ih =>
    unfold probe at h
    simp only at h
    split at h
    · cases h
    · next hslot =>
      obtain ⟨rfl, rfl⟩ := Outcome.free.inj h
      exact ⟨by omega, rfl, hslot, by omega⟩
    · next slot hslot =>
      split at h
      · cases h
      · next hold =>
        obtain ⟨hm, hi, hfree, hpass⟩ := ih h
        refine ⟨by omega, hi, hfree, ?_⟩
        intro l hkl hlm
        rcases Nat.eq_or_lt_of_le hkl with rfl | hkl
        · exact ⟨slot, hslot, Bool.eq_false_iff.mpr hold⟩
        · exact hpass l hkl hlm

/-- The coordinates of two finite points in affine form tell them apart. -/
lemma eq_of_holds (hq : q.WellFormed) (hqa : q.form = .affine)
    (hs : s.point.WellFormed) (hsa : s.point.form = .affine) (h : s.holds hash q = true) :
    s.point = q := by
  unfold Slot.holds at h
  rw [Bool.and_eq_true, Bool.and_eq_true, beq_iff_eq, beq_iff_eq, beq_iff_eq] at h
  rw [hs.eq_ofAffine hsa, hq.eq_ofAffine hqa, h.1.2, h.2]

lemma form_toAffine (hp : p.WellFormed) (hi : p.isInfinity = false) :
    p.toAffine.form = .affine := by
  rcases hp.toAffine_cases with rfl | ⟨-, x, y, -, -, e⟩
  · cases hi
  · rw [e]
    rfl

/-- What is found for a point is its affine form. -/
lemma Regular.search_occupied (h : t.Regular) (hp : p.WellFormed) (hi : p.isInfinity = false)
    (e : t.search p = .occupied i s) :
    t.slots[i]? = some (some s) ∧ s.point = p.toAffine := by
  obtain ⟨hslot, hold⟩ := probe_occupied e
  have hs : t.Stores s.point := ⟨i, s, hslot, rfl⟩
  exact ⟨hslot, eq_of_holds hp.toAffine (form_toAffine hp hi) (h.wellFormed _ hs) (h.affine _ hs)
    hold⟩

/-! ### Changing -/

/-- Counting an access leaves the points as they are. -/
lemma stores_touch (h : t.Holds i s) (q : Point) : (t.touch i s).Stores q ↔ t.Stores q := by
  rw [touch_eq_put, stores_put h.lt_size]
  constructor
  · rintro (rfl | ⟨j, u, -, hu, rfl⟩)
    · exact ⟨i, s, h, rfl⟩
    · exact ⟨j, u, hu, rfl⟩
  · rintro ⟨j, u, hu, rfl⟩
    by_cases hj : j = i
    · subst hj
      obtain rfl := h.unique hu
      exact .inl rfl
    · exact .inr ⟨j, u, hj, hu, rfl⟩

/-- Filling a free slot adds one point. -/
lemma stores_fill (h : t.slots[i]? = some none) (u : Slot) (n : ℕ) (q : Point) :
    (t.put i u n).Stores q ↔ t.Stores q ∨ q = u.point := by
  rw [stores_put (Array.getElem?_eq_some_iff.mp h).1, or_comm]
  refine or_congr_left ?_
  constructor
  · rintro ⟨j, s, -, hs, rfl⟩
    exact ⟨j, s, hs, rfl⟩
  · rintro ⟨j, s, hs, rfl⟩
    refine ⟨j, s, ?_, hs, rfl⟩
    rintro rfl
    cases h.symm.trans hs

/-- **Storing a point** adds its affine form, and nothing else. -/
theorem Regular.stores_insert {es : List Event} (h : t.Regular) (hp : p.WellFormed)
    (e : t.insert p = .ok (t', es)) :
    p.isInfinity = false ∧ ∀ q, t'.Stores q ↔ t.Stores q ∨ q = p.toAffine := by
  unfold insert at e
  rcases hi : p.isInfinity
  · rw [hi] at e
    refine ⟨rfl, ?_⟩
    intro q
    rcases hs : t.search p with ⟨i, s⟩ | ⟨i, k⟩ | _
    · obtain ⟨hslot, hpoint⟩ := h.search_occupied hp hi hs
      rw [hs] at e
      obtain ⟨rfl, -⟩ := Prod.mk.inj (Except.ok.inj e)
      rw [stores_touch hslot, ← hpoint, iff_self_or]
      rintro rfl
      exact ⟨i, s, hslot, rfl⟩
    · rw [hs] at e
      obtain ⟨rfl, -⟩ := Prod.mk.inj (Except.ok.inj e)
      obtain ⟨-, -, hfree, -⟩ := probe_eq_free hs
      exact stores_fill hfree _ _ q
    · rw [hs] at e
      cases e
  · rw [hi] at e
    cases e

lemma Regular.insert {es : List Event} (h : t.Regular) (hp : p.WellFormed)
    (e : t.insert p = .ok (t', es)) : t'.Regular := by
  obtain ⟨hi, hs⟩ := h.stores_insert hp e
  constructor
  · intro q hq
    rcases (hs q).mp hq with hq | rfl
    · exact h.wellFormed q hq
    · exact hp.toAffine
  · intro q hq
    rcases (hs q).mp hq with hq | rfl
    · exact h.affine q hq
    · exact form_toAffine hp hi

/-- A finite point is refused only by a full table. -/
lemma insert_eq_error {e : Error} (hi : p.isInfinity = false) (h : t.insert p = .error e) :
    e = .tableFull t.slots.size := by
  unfold LookupTable.insert at h
  rw [hi] at h
  rcases hs : t.search p with ⟨i, s⟩ | ⟨i, k⟩ | _ <;> rw [hs] at h
  · cases h
  · cases h
  · exact (Except.error.inj h).symm

/-- **Looking a point up** changes no point. -/
theorem stores_lookup (t : LookupTable) (p q : Point) : (t.lookup p).2.Stores q ↔ t.Stores q := by
  unfold lookup
  simp only
  rcases hf : find? { t with lookups := t.lookups + 1 } p with _ | ⟨i, s⟩
  · rfl
  · unfold find? at hf
    split at hf
    · cases hf
    · next hi =>
      split at hf
      · next i' s' hs =>
        obtain ⟨rfl, rfl⟩ := Prod.mk.inj (Option.some.inj hf)
        exact stores_touch (t := { t with lookups := t.lookups + 1 }) (probe_occupied hs).1 q
      · cases hf

lemma Regular.of_stores (h : t.Regular) (hs : ∀ q, t'.Stores q → t.Stores q) : t'.Regular :=
  ⟨fun q hq => h.wellFormed q (hs q hq), fun q hq => h.affine q (hs q hq)⟩

/-- A cleared table holds nothing. -/
lemma not_stores_clear (t : LookupTable) (q : Point) : ¬t.clear.Stores q := by
  rintro ⟨i, s, h, -⟩
  exact not_holds_replicate _ _ _ _ i s h

/-- A new table has free slots only, and its counters are at zero. -/
lemma withCapacity_eq_ok {c : ℕ} (h : withCapacity c = .ok t) :
    0 < c ∧ t = ⟨Array.replicate (leastPowerOfTwo c) none, 0, 0, 0⟩ := by
  unfold withCapacity at h
  obtain ⟨_, hpos, h⟩ := exists_of_bind_eq_ok h
  refine ⟨of_decide_eq_true (of_require_eq_ok hpos), ?_⟩
  split at h
  · cases h
  · dsimp only at h
    split at h
    · cases h
    · exact (Except.ok.inj h).symm

/-- A new table holds nothing. -/
lemma not_stores_of_withCapacity {c : ℕ} (h : withCapacity c = .ok t) (q : Point) :
    ¬t.Stores q := by
  obtain ⟨-, rfl⟩ := withCapacity_eq_ok h
  rintro ⟨i, s, hs, -⟩
  exact not_holds_replicate _ _ _ _ i s hs

/-- What is found is one of the points in the cache. -/
lemma stores_of_lookup (h : (t.lookup p).1 = .ok q) : t.Stores q := by
  unfold lookup at h
  dsimp only at h
  split at h
  · next i s hf =>
    obtain rfl := Except.ok.inj h
    unfold find? at hf
    split at hf
    · cases hf
    · split at hf
      · next i' s' hs =>
        obtain ⟨rfl, rfl⟩ := Prod.mk.inj (Option.some.inj hf)
        exact ⟨_, _, (probe_occupied hs).1, rfl⟩
      · cases hf
  · cases h

end Secp256k1.LookupTable
