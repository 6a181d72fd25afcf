import Secp256k1.Proofs.Caches

/-!
Searching a table of points.

The search for a point goes from slot to slot, around the end of the table and on from its
start, and stops at a free slot or at the slot of the point. It misses no point as long as the
slots on the way from the hash of a point to the slot of the point are all taken. Filling the
slot that the search for a new point stops at keeps it so, and so does counting an access.
-/

namespace Secp256k1.LookupTable

variable {t t' : LookupTable} {p q : Point} {hash : UInt64} {i j k m n : ℕ} {s u : Slot}

/-- Slot `i` is taken. -/
def Taken (t : LookupTable) (i : ℕ) : Prop := ∃ s, t.Holds i s

/-! ### The slots that are passed -/

lemma slotAfter_lt (h : 0 < t.slots.size) (hash : UInt64) (k : ℕ) :
    t.slotAfter hash k < t.slots.size := Nat.mod_lt _ h

/-- Every slot is some way after the one of the hash. -/
lemma exists_slotAfter (hash : UInt64) (hi : i < t.slots.size) :
    ∃ k < t.slots.size, t.slotAfter hash k = i := by
  have hpos : 0 < t.slots.size := by omega
  have hlt : hash.toNat % t.slots.size < t.slots.size := Nat.mod_lt _ hpos
  refine ⟨(i + t.slots.size - hash.toNat % t.slots.size) % t.slots.size, Nat.mod_lt _ hpos, ?_⟩
  have hround : hash.toNat % t.slots.size + (i + t.slots.size - hash.toNat % t.slots.size) =
      i + t.slots.size := by omega
  rw [slotAfter, Nat.add_mod_mod, ← Nat.mod_add_mod, hround, Nat.add_mod_right,
    Nat.mod_eq_of_lt hi]

/-- A search that ends nowhere has passed all slots that it was to look at. -/
lemma probe_eq_exhausted (hpos : 0 < t.slots.size) (h : t.probe hash p n k = .exhausted) :
    ∀ l, k ≤ l → l < k + n → t.Passes hash p l := by
  induction n generalizing k with
  | zero => omega
  | succ n ih =>
    intro l hkl hln
    unfold probe at h
    simp only at h
    split at h
    · next hslot =>
      rw [Array.getElem?_eq_none_iff] at hslot
      exact absurd (slotAfter_lt hpos hash k) (by unfold slotAfter; omega)
    · cases h
    · next slot hslot =>
      split at h
      · cases h
      · next hold =>
        rcases Nat.eq_or_lt_of_le hkl with rfl | hkl
        · exact ⟨slot, hslot, Bool.eq_false_iff.mpr hold⟩
        · exact ih h l hkl (by omega)

/-! ### Entries -/

/-- The entries are the slots that are taken. -/
def Counted (t : LookupTable) : Prop := t.entries = t.slots.countP Option.isSome

lemma Counted.le_size (h : t.Counted) : t.entries ≤ t.slots.size :=
  h.trans_le Array.countP_le_size

/-- Writing a slot that is taken does not change the number of entries. -/
lemma Counted.overwrite (h : t.Counted) (hs : t.Holds i s) (u : Slot) :
    (t.put i u t.entries).Counted := by
  obtain ⟨hi, hslot⟩ := Array.getElem?_eq_some_iff.mp hs
  have hpos : 0 < t.slots.countP Option.isSome :=
    Array.countP_pos_iff.mpr ⟨some s, Array.mem_of_getElem? hs, rfl⟩
  have hn : t.entries = (t.slots.setIfInBounds i (some u)).countP Option.isSome := by
    rw [h, Array.setIfInBounds_def, dif_pos hi, Array.countP_set hi, hslot]
    simp only [Option.isSome_some, if_true]
    omega
  exact hn

/-- Writing a free slot makes one entry more. -/
lemma Counted.occupy (h : t.Counted) (hfree : t.slots[i]? = some none) (u : Slot) :
    (t.put i u (t.entries + 1)).Counted := by
  obtain ⟨hi, hslot⟩ := Array.getElem?_eq_some_iff.mp hfree
  have hn : t.entries + 1 = (t.slots.setIfInBounds i (some u)).countP Option.isSome := by
    rw [h, Array.setIfInBounds_def, dif_pos hi, Array.countP_set hi, hslot]
    simp
  exact hn

/-! ### Tables that can be searched -/

/-- Every point that is stored can be found: all slots from the one of its hash up to its own
are taken. No point is stored twice, and the entries are counted. -/
structure Searchable (t : LookupTable) : Prop extends t.Regular where
  size_pos : 0 < t.slots.size
  hash_eq : ∀ {i s}, t.Holds i s → s.hash = s.point.hash
  path : ∀ {i s}, t.Holds i s →
    ∃ k < t.slots.size, t.slotAfter s.hash k = i ∧ ∀ l < k, t.Taken (t.slotAfter s.hash l)
  unique : ∀ {i j s u}, t.Holds i s → t.Holds j u → s.point = u.point → i = j
  entries : t.entries = t.slots.countP Option.isSome

lemma Searchable.of_slots (h : t.Searchable) (hs : t'.slots = t.slots)
    (he : t'.entries = t.entries) : t'.Searchable := by
  obtain ⟨slots, entries, lookups, hits⟩ := t'
  obtain rfl : slots = t.slots := hs
  obtain rfl : entries = t.entries := he
  exact ⟨⟨h.wellFormed, h.affine⟩, h.size_pos, h.hash_eq, h.path, h.unique, h.entries⟩

/-- A table without points can be searched. -/
lemma searchable_replicate {size : ℕ} (h : 0 < size) :
    Searchable ⟨Array.replicate size none, 0, 0, 0⟩ := by
  have hfree := not_holds_replicate size 0 0 0
  constructor
  case toRegular =>
    constructor <;> rintro q ⟨i, s, hs, -⟩ <;> exact absurd hs (hfree i s)
  case size_pos => simpa using h
  case hash_eq => exact fun hs => absurd hs (hfree _ _)
  case path => exact fun hs => absurd hs (hfree _ _)
  case unique => exact fun hs => absurd hs (hfree _ _)
  case entries => simp [Array.countP_replicate]

/-! ### The outcome of a search -/

/-- A slot with a point in affine form holds exactly that point. -/
lemma Searchable.holds_self (h : t.Searchable) (hs : t.Holds i s) :
    s.holds s.point.hash s.point = true := by
  unfold Slot.holds
  simp [h.hash_eq hs]

/-- The search for a point that is stored does not pass the slot of the point, and all slots
before it are taken. -/
lemma Searchable.not_passes (h : t.Searchable) (hs : t.Holds i s) :
    ∃ k < t.slots.size, t.slotAfter s.point.hash k = i ∧ ¬t.Passes s.point.hash s.point k ∧
      ∀ l < k, t.Taken (t.slotAfter s.point.hash l) := by
  obtain ⟨k, hk, hi, hbefore⟩ := h.path hs
  rw [h.hash_eq hs] at hi hbefore
  refine ⟨k, hk, hi, ?_, hbefore⟩
  rintro ⟨u, hu, hno⟩
  rw [hi] at hu
  obtain rfl := hs.unique hu
  rw [h.holds_self hs] at hno
  cases hno

/-- A search that ends at a free slot is for a point that is not stored. -/
theorem Searchable.not_stores_of_free (h : t.Searchable) (e : t.search p = .free i m) :
    ¬t.Stores p.toAffine := by
  rintro ⟨j, s, hs, hsp⟩
  obtain ⟨-, rfl, hfree, hpass⟩ := probe_eq_free e
  obtain ⟨k, -, hj, hno, hbefore⟩ := h.not_passes hs
  rw [hsp] at hj hno hbefore
  rcases Nat.lt_trichotomy k m with hkm | rfl | hmk
  · exact hno (hpass k (Nat.zero_le k) hkm)
  · subst hj
    cases hfree.symm.trans hs
  · obtain ⟨u, hu⟩ := hbefore m hmk
    cases hfree.symm.trans hu

/-- A search that ends nowhere is for a point that is not stored, in a full table. -/
theorem Searchable.full_of_exhausted (h : t.Searchable) (e : t.search p = .exhausted) :
    ¬t.Stores p.toAffine ∧ ∀ i < t.slots.size, t.Taken i := by
  have hpass := probe_eq_exhausted h.size_pos e
  constructor
  · rintro ⟨j, s, hs, hsp⟩
    obtain ⟨k, hk, -, hno, -⟩ := h.not_passes hs
    rw [hsp] at hno
    exact hno (hpass k (Nat.zero_le k) (by omega))
  · intro i hi
    obtain ⟨k, hk, rfl⟩ := exists_slotAfter p.toAffine.hash hi
    obtain ⟨s, hs, -⟩ := hpass k (Nat.zero_le k) (by omega)
    exact ⟨s, hs⟩

/-! ### Writing a slot -/

@[simp] lemma slotAfter_put (t : LookupTable) (i : ℕ) (u : Slot) (n : ℕ) (hash : UInt64) (k : ℕ) :
    (t.put i u n).slotAfter hash k = t.slotAfter hash k := by simp [slotAfter]

lemma Taken.put (h : t.Taken j) (hi : i < t.slots.size) : (t.put i u n).Taken j := by
  obtain ⟨s, hs⟩ := h
  by_cases hj : j = i
  · exact ⟨u, (holds_put hi).mpr (.inl ⟨hj, rfl⟩)⟩
  · exact ⟨s, (holds_put hi).mpr (.inr ⟨hj, hs⟩)⟩

/-- A slot can be written if the way to it is taken, and no other slot holds its point. -/
lemma Searchable.put (h : t.Searchable) (hi : i < t.slots.size) (hu : u.point.WellFormed)
    (hua : u.point.form = .affine) (hhash : u.hash = u.point.hash)
    (hpath : ∃ k < t.slots.size, t.slotAfter u.hash k = i ∧
      ∀ l < k, t.Taken (t.slotAfter u.hash l))
    (hother : ∀ {j s}, j ≠ i → t.Holds j s → s.point ≠ u.point)
    (hn : n = (t.slots.setIfInBounds i (some u)).countP Option.isSome) :
    (t.put i u n).Searchable := by
  constructor
  case toRegular =>
    constructor
    case wellFormed =>
      rintro q ⟨j, s, hs, rfl⟩
      rcases (holds_put hi).mp hs with ⟨-, rfl⟩ | ⟨-, hs⟩
      · exact hu
      · exact h.wellFormed _ ⟨j, s, hs, rfl⟩
    case affine =>
      rintro q ⟨j, s, hs, rfl⟩
      rcases (holds_put hi).mp hs with ⟨-, rfl⟩ | ⟨-, hs⟩
      · exact hua
      · exact h.affine _ ⟨j, s, hs, rfl⟩
  case size_pos =>
    rw [size_put]
    exact h.size_pos
  case hash_eq =>
    intro j s hs
    rcases (holds_put hi).mp hs with ⟨-, rfl⟩ | ⟨-, hs⟩
    · exact hhash
    · exact h.hash_eq hs
  case path =>
    intro j s hs
    simp only [size_put, slotAfter_put]
    rcases (holds_put hi).mp hs with ⟨rfl, rfl⟩ | ⟨-, hs⟩
    · obtain ⟨k, hk, e, hbefore⟩ := hpath
      exact ⟨k, hk, e, fun l hl => (hbefore l hl).put hi⟩
    · obtain ⟨k, hk, e, hbefore⟩ := h.path hs
      exact ⟨k, hk, e, fun l hl => (hbefore l hl).put hi⟩
  case unique =>
    intro j l s v hs hv e
    rcases (holds_put hi).mp hs with ⟨rfl, rfl⟩ | ⟨hj, hs'⟩ <;>
      rcases (holds_put hi).mp hv with ⟨rfl, rfl⟩ | ⟨hl, hv'⟩
    · rfl
    · exact absurd e.symm (hother hl hv')
    · exact absurd e (hother hj hs')
    · exact h.unique hs' hv' e
  case entries => exact hn

/-- Counting an access keeps the points where they are. -/
lemma Searchable.touch (h : t.Searchable) (hs : t.Holds i s) : (t.touch i s).Searchable := by
  have hstored : t.Stores s.point := ⟨i, s, hs, rfl⟩
  rw [touch_eq_put]
  have hhash := h.hash_eq hs
  have hpath := h.path hs
  refine h.put hs.lt_size (h.wellFormed _ hstored) (h.affine _ hstored) hhash hpath ?_
    (Counted.overwrite h.entries hs s.touch)
  intro j u hj hu e
  exact hj (h.unique hu hs e)

/-- A new point goes to the free slot that the search for it ends at. -/
lemma Searchable.fill (h : t.Searchable) (hp : p.WellFormed) (hf : p.isInfinity = false)
    (e : t.search p = .free i m) :
    (t.put i ⟨p.toAffine, p.toAffine.hash, 0⟩ (t.entries + 1)).Searchable := by
  obtain ⟨hm, hi, hfree, hpass⟩ := probe_eq_free e
  obtain ⟨hlt, -⟩ := Array.getElem?_eq_some_iff.mp hfree
  refine h.put hlt hp.toAffine (form_toAffine hp hf) rfl ⟨m, by omega, hi, ?_⟩ ?_
    (Counted.occupy h.entries hfree _)
  · intro l hl
    obtain ⟨s, hs, -⟩ := hpass l (Nat.zero_le l) hl
    exact ⟨s, hs⟩
  · intro j s _ hs hsp
    exact h.not_stores_of_free e ⟨j, s, hs, hsp⟩

end Secp256k1.LookupTable
