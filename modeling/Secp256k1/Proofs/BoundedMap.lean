import Mathlib.Data.Finmap
import Mathlib.Order.Bounds.Basic
import Secp256k1.Proofs.Probing

/-!
A table of points is a bounded map.

What a table answers is what a finite map from affine coordinates to numbers of accesses
answers, which holds no more than a certain number of points. Slots, hashes and collisions do
not show in any answer. The map counts without end, and shows each of its numbers in one word; the
counters of the table are these words.
-/

namespace Secp256k1

/-- The affine coordinates of a finite point. -/
def Point.key (p : Point) : FieldElement × FieldElement := (p.toAffine.x, p.toAffine.y)

/-- Numbers of accesses by affine coordinates, and the counters of look-ups. -/
structure BoundedMap where
  counts : Finmap fun _ : FieldElement × FieldElement => ℕ
  /-- How many points there is room for. -/
  bound : ℕ
  lookups : ℕ
  hits : ℕ

namespace BoundedMap

def empty (bound : ℕ) : BoundedMap := ⟨∅, bound, 0, 0⟩

/-- The number of points. -/
def size (m : BoundedMap) : ℕ := m.counts.keys.card

/-- The number of accesses of a point, if it is in the map; infinity never is. -/
def count? (m : BoundedMap) (p : Point) : Option ℕ :=
  if p.isInfinity then none else m.counts.lookup p.key

/-- The map with the number of accesses of a point. -/
def record (m : BoundedMap) (p : Point) (n : ℕ) : BoundedMap :=
  { m with counts := m.counts.insert p.key n }

variable {m : BoundedMap} {p : Point} {k : ℕ}

lemma keys_record (m : BoundedMap) (p : Point) (n : ℕ) :
    (m.record p n).counts.keys = insert p.key m.counts.keys := by
  ext key
  simp [record, Finmap.mem_keys]

lemma size_record_of_some (h : m.counts.lookup p.key = some k) (n : ℕ) :
    (m.record p n).size = m.size := by
  have hmem : p.key ∈ m.counts.keys := by
    rw [Finmap.mem_keys, ← Finmap.lookup_isSome, h, Option.isSome_some]
  rw [size, keys_record, Finset.insert_eq_of_mem hmem, size]

lemma size_record_of_none (h : m.counts.lookup p.key = none) (n : ℕ) :
    (m.record p n).size = m.size + 1 := by
  have hmem : p.key ∉ m.counts.keys := by
    rw [Finmap.mem_keys, ← Finmap.lookup_eq_none, h]
  rw [size, keys_record, Finset.card_insert_of_notMem hmem, size]

/-- Store a finite point, or count it if it is there already. -/
def insert (m : BoundedMap) (p : Point) : Except Error BoundedMap :=
  if p.isInfinity then .error (.pointAtInfinity "PointLookupTable::insert")
  else
    match m.count? p with
    | some n => .ok (m.record p (n + 1))
    | none => if m.size < m.bound then .ok (m.record p 0) else .error (.tableFull m.bound)

/-- The affine form of a point in the map. The look-up is counted, and so is the access. -/
def lookup (m : BoundedMap) (p : Point) : Except Error Point × BoundedMap :=
  let m := { m with lookups := m.lookups + 1 }
  match m.count? p with
  | some n => (.ok p.toAffine, { m.record p (n + 1) with hits := m.hits + 1 })
  | none => (.error (.pointNotFound "PointLookupTable::lookup"), m)

def stats (m : BoundedMap) : LookupStats := ⟨m.bound, m.size, .ofNat m.lookups, .ofNat m.hits⟩

end BoundedMap

/-! ### Requests -/

/-- What a table can be asked. -/
inductive Request where
  | insert (p : Point)
  | lookup (p : Point)
  | contains (p : Point)
  | accessCount (p : Point)
  | stats
  | len
  | clear

/-- What comes back. -/
inductive Answer where
  | stored (out : Except Error Unit)
  | found (out : Except Error Point)
  | member (isMember : Bool)
  | accesses (count : Option UInt64)
  | counters (stats : LookupStats)
  | entries (number : ℕ)
  | cleared

/-- The points of the request are in some proper form, on the curve or off it. -/
def Request.WellFormed : Request → Prop
  | insert p | lookup p | contains p | accessCount p => p.WellFormed
  | stats | len | clear => True

def LookupTable.serve (t : LookupTable) : Request → Answer × LookupTable
  | .insert p =>
    match t.insert p with
    | .ok (t', _) => (.stored (.ok ()), t')
    | .error e => (.stored (.error e), t)
  | .lookup p => (.found (t.lookup p).1, (t.lookup p).2)
  | .contains p => (.member (t.contains p), t)
  | .accessCount p => (.accesses (t.accessCount? p), t)
  | .stats => (.counters t.stats, t)
  | .len => (.entries t.entries, t)
  | .clear => (.cleared, t.clear)

def BoundedMap.serve (m : BoundedMap) : Request → Answer × BoundedMap
  | .insert p =>
    match m.insert p with
    | .ok m' => (.stored (.ok ()), m')
    | .error e => (.stored (.error e), m)
  | .lookup p => (.found (m.lookup p).1, (m.lookup p).2)
  | .contains p => (.member (m.count? p).isSome, m)
  | .accessCount p => (.accesses ((m.count? p).map .ofNat), m)
  | .stats => (.counters m.stats, m)
  | .len => (.entries m.size, m)
  | .clear => (.cleared, .empty m.bound)

/-- No count is above `b`, and neither is the number of look-ups. -/
structure BoundedMap.Within (m : BoundedMap) (b : ℕ) : Prop where
  counts : ∀ key n, m.counts.lookup key = some n → n ≤ b
  lookups : m.lookups ≤ b

namespace BoundedMap

variable {m m' : BoundedMap} {p : Point} {b n : ℕ}

lemma Within.mono {b' : ℕ} (h : m.Within b) (hb : b ≤ b') : m.Within b' :=
  ⟨fun key n hn => (h.counts key n hn).trans hb, h.lookups.trans hb⟩

lemma Within.succ (h : m.Within b) : m.Within (b + 1) := h.mono b.le_succ

lemma Within.count_le (h : m.Within b) (hn : m.count? p = some n) : n ≤ b := by
  unfold count? at hn
  split at hn
  · cases hn
  · exact h.counts _ _ hn

lemma Within.record (h : m.Within b) (hn : n ≤ b) : (m.record p n).Within b where
  counts := by
    intro key k hk
    unfold BoundedMap.record at hk
    by_cases hkey : key = p.key
    · rw [hkey, Finmap.lookup_insert] at hk
      exact (Option.some.inj hk).ge.trans hn
    · rw [Finmap.lookup_insert_of_ne _ hkey] at hk
      exact h.counts key k hk
  lookups := h.lookups

lemma within_empty (bound : ℕ) : (empty bound).Within 0 where
  counts key n h := by cases (Finmap.lookup_empty key).symm.trans h
  lookups := le_rfl

/-- Storing a point raises none of them by more than one. -/
lemma Within.insert (h : m.Within b) (e : m.insert p = .ok m') :
    m'.bound = m.bound ∧ m'.Within (b + 1) := by
  unfold BoundedMap.insert at e
  split at e
  · cases e
  · split at e
    · next n hn =>
      obtain rfl := Except.ok.inj e
      exact ⟨rfl, h.succ.record (Nat.succ_le_succ (h.count_le hn))⟩
    · split at e
      · obtain rfl := Except.ok.inj e
        exact ⟨rfl, h.succ.record (Nat.zero_le _)⟩
      · cases e

lemma Within.lookup (h : m.Within b) (p : Point) :
    (m.lookup p).2.bound = m.bound ∧ (m.lookup p).2.Within (b + 1) := by
  have hcounted : Within { m with lookups := m.lookups + 1 } (b + 1) :=
    ⟨h.succ.counts, Nat.succ_le_succ h.lookups⟩
  unfold BoundedMap.lookup
  dsimp only
  split
  · next n hn =>
    have hr := hcounted.record (p := p) (Nat.succ_le_succ (h.count_le hn))
    exact ⟨rfl, hr.counts, hr.lookups⟩
  · exact ⟨rfl, hcounted⟩

/-- A request leaves the bound alone, and raises none of them by more than one. -/
lemma Within.serve (h : m.Within b) (r : Request) :
    (m.serve r).2.bound = m.bound ∧ (m.serve r).2.Within (b + 1) := by
  cases r with
  | insert p =>
    unfold BoundedMap.serve
    dsimp only
    split
    · next m' e => exact h.insert e
    · exact ⟨rfl, h.succ⟩
  | lookup p => exact h.lookup p
  | contains | accessCount | stats | len => exact ⟨rfl, h.succ⟩
  | clear => exact ⟨rfl, (within_empty m.bound).mono (Nat.zero_le _)⟩

end BoundedMap

/-- The answers to requests made one after the other, and what is left behind. -/
def serveAll {S : Type} (serve : S → Request → Answer × S) (s : S) :
    List Request → List Answer × S
  | [] => ([], s)
  | r :: rs =>
    let (a, s') := serve s r
    let (as, s'') := serveAll serve s' rs
    (a :: as, s'')

lemma serveAll_cons_snd {S : Type} (serve : S → Request → Answer × S) (s : S) (r : Request)
    (rs : List Request) :
    (serveAll serve s (r :: rs)).2 = (serveAll serve (serve s r).2 rs).2 := rfl

lemma BoundedMap.Within.serveAll {m : BoundedMap} {b : ℕ} (h : m.Within b) (rs : List Request) :
    (serveAll BoundedMap.serve m rs).2.bound = m.bound ∧
      (serveAll BoundedMap.serve m rs).2.Within (b + rs.length) := by
  induction rs generalizing m b with
  | nil => exact ⟨rfl, h⟩
  | cons r rs ih =>
    obtain ⟨hbound, hstep⟩ := h.serve r
    obtain ⟨hbounds, hrest⟩ := ih hstep
    refine ⟨hbounds.trans hbound, ?_⟩
    rw [List.length_cons, Nat.add_comm rs.length, ← Nat.add_assoc]
    exact hrest

/-! ### Slots and coordinates -/

namespace LookupTable

variable {t : LookupTable} {m : BoundedMap} {p : Point} {i j k n : ℕ} {s u : Slot}

def Slot.key (s : Slot) : FieldElement × FieldElement := (s.point.x, s.point.y)

/-- A slot has the coordinates of a point exactly if it holds the affine form of the point. -/
lemma Regular.key_eq_iff (h : t.Regular) (hs : t.Holds i s) (hp : p.WellFormed)
    (hf : p.isInfinity = false) : s.key = p.key ↔ s.point = p.toAffine := by
  have hstored : t.Stores s.point := ⟨i, s, hs, rfl⟩
  have hpoint := (h.wellFormed _ hstored).eq_ofAffine (h.affine _ hstored)
  have haffine := hp.toAffine.eq_ofAffine (form_toAffine hp hf)
  unfold Slot.key Point.key
  constructor
  · intro e
    obtain ⟨hx, hy⟩ := Prod.mk.inj e
    rw [hpoint, haffine, hx, hy]
  · intro e
    rw [e]

/-- No two slots have the same coordinates. -/
lemma Searchable.key_injective (h : t.Searchable) (hs : t.Holds i s) (hu : t.Holds j u)
    (e : s.key = u.key) : i = j := by
  have hstored : t.Stores s.point := ⟨i, s, hs, rfl⟩
  have hstored' : t.Stores u.point := ⟨j, u, hu, rfl⟩
  refine h.unique hs hu ?_
  obtain ⟨hx, hy⟩ := Prod.mk.inj e
  rw [(h.wellFormed _ hstored).eq_ofAffine (h.affine _ hstored),
    (h.wellFormed _ hstored').eq_ofAffine (h.affine _ hstored'), hx, hy]

/-- A table with a free slot has fewer entries than slots. -/
lemma Searchable.entries_lt (h : t.Searchable) (hfree : t.slots[i]? = some none) :
    t.entries < t.slots.size := by
  rw [h.entries]
  refine lt_of_le_of_ne Array.countP_le_size ?_
  rw [Ne, Array.countP_eq_size]
  intro hall
  exact absurd (hall none (Array.mem_of_getElem? hfree)) (by decide)

/-- A table without a free slot has as many entries as slots. -/
lemma Searchable.entries_eq (h : t.Searchable) (hfull : ∀ i < t.slots.size, t.Taken i) :
    t.entries = t.slots.size := by
  rw [h.entries, Array.countP_eq_size]
  intro o ho
  obtain ⟨i, hi, rfl⟩ := Array.mem_iff_getElem.mp ho
  obtain ⟨s, hs⟩ := hfull i hi
  rw [(Array.getElem?_eq_some_iff.mp hs).2]
  rfl

/-! ### The map that a table stands for -/

/-- The table stands for the map, and its counters are the numbers in the map modulo `2 ^ 64`. -/
structure Refines (t : LookupTable) (m : BoundedMap) : Prop where
  searchable : t.Searchable
  counts : ∀ key w, (m.counts.lookup key).map UInt64.ofNat = some w ↔
    ∃ i s, t.Holds i s ∧ s.key = key ∧ s.accesses = w
  size : t.entries = m.size
  bound : t.slots.size = m.bound
  lookups : t.lookups = .ofNat m.lookups
  hits : t.hits = .ofNat m.hits
  hits_le : m.hits ≤ m.lookups

lemma add_one_eq_ofNat {w : UInt64} (h : w = .ofNat n) : w + 1 = .ofNat (n + 1) := by
  rw [h]
  exact (UInt64.ofNat_add n 1).symm

namespace Refines

lemma size_le (h : Refines t m) : m.size ≤ m.bound := by
  rw [← h.size, ← h.bound, h.searchable.entries]
  exact Array.countP_le_size

/-- An empty table stands for the empty map. -/
lemma replicate {size : ℕ} (h : 0 < size) :
    Refines ⟨Array.replicate size none, 0, 0, 0⟩ (.empty size) where
  searchable := searchable_replicate h
  counts := by
    intro key w
    simp only [BoundedMap.empty, Finmap.lookup_empty, Option.map_none, reduceCtorEq, false_iff]
    rintro ⟨i, s, hs, -⟩
    exact not_holds_replicate _ _ _ _ i s hs
  size := by simp [BoundedMap.size, BoundedMap.empty]
  bound := by simp [BoundedMap.empty]
  lookups := rfl
  hits := rfl
  hits_le := le_rfl

lemma counters (h : Refines t m) {lookups hits : UInt64} {lookups' hits' : ℕ}
    (hl : lookups = .ofNat lookups') (hh : hits = .ofNat hits') (hle : hits' ≤ lookups') :
    Refines { t with lookups, hits } { m with lookups := lookups', hits := hits' } :=
  ⟨h.searchable.of_slots rfl rfl, h.counts, h.size, h.bound, hl, hh, hle⟩

/-- A slot is written when its point is recorded: no other slot has the coordinates of the
point, and the slot had no others. -/
lemma put (h : Refines t m) (hi : i < t.slots.size) (hu : u.key = p.key)
    (hk : u.accesses = .ofNat k) (hsearch : (t.put i u n).Searchable)
    (hold : ∀ s, t.Holds i s → s.key = p.key)
    (hother : ∀ j s, t.Holds j s → s.key = p.key → j = i) (hn : n = (m.record p k).size) :
    Refines (t.put i u n) (m.record p k) where
  searchable := hsearch
  counts := by
    intro key w
    unfold BoundedMap.record
    by_cases hkey : key = p.key
    · subst hkey
      rw [Finmap.lookup_insert, Option.map_some, ← hk]
      constructor
      · intro e
        exact ⟨i, u, (holds_put hi).mpr (.inl ⟨rfl, rfl⟩), hu, Option.some.inj e⟩
      · rintro ⟨j, s, hs, hkey, rfl⟩
        rcases (holds_put hi).mp hs with ⟨-, rfl⟩ | ⟨hj, hs⟩
        · rfl
        · exact absurd (hother j s hs hkey) hj
    · rw [Finmap.lookup_insert_of_ne _ hkey, h.counts]
      constructor
      · rintro ⟨j, s, hs, rfl, hc⟩
        have hj : j ≠ i := by
          rintro rfl
          exact hkey (hold s hs)
        exact ⟨j, s, (holds_put hi).mpr (.inr ⟨hj, hs⟩), rfl, hc⟩
      · rintro ⟨j, s, hs, rfl, hc⟩
        rcases (holds_put hi).mp hs with ⟨-, rfl⟩ | ⟨-, hs⟩
        · exact absurd hu hkey
        · exact ⟨j, s, hs, rfl, hc⟩
  size := hn
  bound := by
    rw [size_put]
    exact h.bound
  lookups := h.lookups
  hits := h.hits
  hits_le := h.hits_le

/-! ### The steps -/

/-- A point that is found has its accesses in the map, and counting one is recording one. -/
lemma found (h : Refines t m) (hp : p.WellFormed) (hf : p.isInfinity = false)
    (e : t.search p = .occupied i s) :
    s.point = p.toAffine ∧ ∃ k, m.counts.lookup p.key = some k ∧ s.accesses = .ofNat k ∧
      Refines (t.touch i s) (m.record p (k + 1)) := by
  obtain ⟨hs, hpoint⟩ := h.searchable.search_occupied hp hf e
  have hslot : t.Holds i s := hs
  have hkey : s.key = p.key := (h.searchable.key_eq_iff hslot hp hf).mpr hpoint
  obtain ⟨k, hcount, hk⟩ := Option.map_eq_some_iff.mp
    ((h.counts p.key s.accesses).mpr ⟨i, s, hslot, hkey, rfl⟩)
  refine ⟨hpoint, k, hcount, hk.symm, ?_⟩
  have htouch : s.touch.accesses = .ofNat (k + 1) := add_one_eq_ofNat hk.symm
  rw [touch_eq_put]
  refine h.put (u := s.touch) hslot.lt_size hkey htouch (h.searchable.touch hslot) ?_ ?_ ?_
  · intro v hv
    rw [hv.unique hslot, hkey]
  · intro j v hv e
    exact h.searchable.key_injective hv hslot (e.trans hkey.symm)
  · rw [BoundedMap.size_record_of_some hcount, h.size]

/-- A point that is not stored is not in the map. -/
lemma lookup_eq_none (h : Refines t m) (hp : p.WellFormed) (hf : p.isInfinity = false)
    (hno : ¬t.Stores p.toAffine) : m.counts.lookup p.key = none := by
  rw [Option.eq_none_iff_forall_ne_some]
  intro n hn
  obtain ⟨i, s, hs, hkey, -⟩ := (h.counts p.key (.ofNat n)).mp (by rw [hn, Option.map_some])
  exact hno ⟨i, s, hs, (h.searchable.key_eq_iff hs hp hf).mp hkey⟩

/-- A point that a free slot is found for is not in the map, and the map has room for it. -/
lemma free (h : Refines t m) (hp : p.WellFormed) (hf : p.isInfinity = false)
    (e : t.search p = .free i k) :
    m.counts.lookup p.key = none ∧ m.size < m.bound ∧
      Refines (t.put i ⟨p.toAffine, p.toAffine.hash, 0⟩ (t.entries + 1)) (m.record p 0) := by
  have hno := h.searchable.not_stores_of_free e
  have hnone := h.lookup_eq_none hp hf hno
  obtain ⟨-, -, hfree, -⟩ := probe_eq_free e
  have hlt := h.searchable.entries_lt hfree
  refine ⟨hnone, by rwa [← h.size, ← h.bound], ?_⟩
  refine h.put (Array.getElem?_eq_some_iff.mp hfree).1 rfl rfl (h.searchable.fill hp hf e) ?_ ?_ ?_
  · intro s hs
    cases hfree.symm.trans hs
  · intro j s hs hkey
    exact absurd ⟨j, s, hs, (h.searchable.key_eq_iff hs hp hf).mp hkey⟩ hno
  · rw [BoundedMap.size_record_of_none hnone, h.size]

/-- A point that no slot is found for is not in the map, and the map is full. -/
lemma exhausted (h : Refines t m) (hp : p.WellFormed) (hf : p.isInfinity = false)
    (e : t.search p = .exhausted) :
    m.counts.lookup p.key = none ∧ ¬m.size < m.bound := by
  obtain ⟨hno, hfull⟩ := h.searchable.full_of_exhausted e
  refine ⟨h.lookup_eq_none hp hf hno, ?_⟩
  rw [← h.size, ← h.bound, h.searchable.entries_eq hfull]
  exact lt_irrefl _

/-- What is found for a point is the point, and has its count in the map. -/
lemma find (h : Refines t m) (hp : p.WellFormed) :
    (∃ i s k, t.find? p = some (i, s) ∧ s.point = p.toAffine ∧ m.count? p = some k ∧
      s.accesses = .ofNat k ∧ Refines (t.touch i s) (m.record p (k + 1))) ∨
    t.find? p = none ∧ m.count? p = none := by
  unfold find? BoundedMap.count?
  rcases hf : p.isInfinity
  · simp only [Bool.false_eq_true, if_false]
    rcases e : t.search p with ⟨i, s⟩ | ⟨i, k⟩ | _
    · obtain ⟨hpoint, k, hcount, hk, hr⟩ := h.found hp hf e
      exact .inl ⟨i, s, k, rfl, hpoint, hcount, hk, hr⟩
    · exact .inr ⟨rfl, (h.free hp hf e).1⟩
    · exact .inr ⟨rfl, (h.exhausted hp hf e).1⟩
  · exact .inr ⟨rfl, rfl⟩

/-- The accesses of a point are its count, in one word. -/
lemma accessCount?_eq (h : Refines t m) (hp : p.WellFormed) :
    t.accessCount? p = (m.count? p).map .ofNat := by
  unfold accessCount?
  rcases h.find hp with ⟨i, s, k, hfind, -, hcount, hk, -⟩ | ⟨hfind, hcount⟩ <;>
    rw [hfind, hcount]
  · exact congrArg some hk
  · rfl

/-- Numbers below `2 ^ 64` are shown as they are. -/
lemma shows_of_lt {b : ℕ} (h : Refines t m) (hm : m.Within b) (hb : b < 2 ^ 64) :
    t.stats.lookups.toNat = m.lookups ∧ t.stats.hits.toNat = m.hits ∧
      t.stats.hits ≤ t.stats.lookups ∧
      ∀ p : Point, p.WellFormed → (t.accessCount? p).map UInt64.toNat = m.count? p := by
  have hlookups : t.stats.lookups.toNat = m.lookups := by
    rw [LookupTable.stats, h.lookups]
    exact UInt64.toNat_ofNat_of_lt' (hm.lookups.trans_lt hb)
  have hhits : t.stats.hits.toNat = m.hits := by
    rw [LookupTable.stats, h.hits]
    exact UInt64.toNat_ofNat_of_lt' ((h.hits_le.trans hm.lookups).trans_lt hb)
  refine ⟨hlookups, hhits, ?_, fun p hp => ?_⟩
  · rw [UInt64.le_iff_toNat_le, hlookups, hhits]
    exact h.hits_le
  · rw [h.accessCount?_eq hp]
    rcases hn : m.count? p with _ | n
    · rfl
    · exact congrArg some (UInt64.toNat_ofNat_of_lt' ((hm.count_le hn).trans_lt hb))

/-- **Storing a point** succeeds for both or fails for both with the same error. -/
theorem insert (h : Refines t m) (hp : p.WellFormed) :
    (∃ t' es m', t.insert p = .ok (t', es) ∧ m.insert p = .ok m' ∧ Refines t' m') ∨
    ∃ e, t.insert p = .error e ∧ m.insert p = .error e := by
  unfold LookupTable.insert BoundedMap.insert BoundedMap.count?
  rcases hf : p.isInfinity
  · simp only [Bool.false_eq_true, if_false]
    rcases e : t.search p with ⟨i, s⟩ | ⟨i, k⟩ | _
    · obtain ⟨-, k, hcount, -, hr⟩ := h.found hp hf e
      rw [hcount]
      exact .inl ⟨_, _, _, rfl, rfl, hr⟩
    · obtain ⟨hcount, hroom, hr⟩ := h.free hp hf e
      simp only [hcount, hroom, if_true]
      exact .inl ⟨_, _, _, rfl, rfl, hr⟩
    · obtain ⟨hcount, hfull⟩ := h.exhausted hp hf e
      simp only [hcount, hfull, if_false, h.bound]
      exact .inr ⟨_, rfl, rfl⟩
  · exact .inr ⟨_, rfl, rfl⟩

/-- **Looking a point up** has the same outcome. -/
theorem lookup (h : Refines t m) (hp : p.WellFormed) :
    (t.lookup p).1 = (m.lookup p).1 ∧ Refines (t.lookup p).2 (m.lookup p).2 := by
  have hle := h.hits_le
  have hcounted : Refines { t with lookups := t.lookups + 1 } { m with lookups := m.lookups + 1 } :=
    h.counters (add_one_eq_ofNat h.lookups) h.hits (by omega)
  unfold LookupTable.lookup BoundedMap.lookup
  rcases hcounted.find hp with ⟨i, s, k, hfind, hpoint, hcount, -, hr⟩ | ⟨hfind, hcount⟩
  · simp only [hfind, hcount]
    refine ⟨congrArg Except.ok hpoint, ?_⟩
    exact hr.counters hr.lookups (add_one_eq_ofNat h.hits) (Nat.succ_le_succ hle)
  · simp only [hfind, hcount, true_and]
    exact hcounted

/-- The table and the map without points. -/
lemma clear (h : Refines t m) : Refines t.clear (.empty m.bound) := by
  rw [← h.bound]
  exact replicate h.searchable.size_pos

/-- **One request** has the same answer, and leaves a table that stands for the map. -/
theorem serve (h : Refines t m) {r : Request} (hr : r.WellFormed) :
    (t.serve r).1 = (m.serve r).1 ∧ Refines (t.serve r).2 (m.serve r).2 := by
  cases r with
  | insert p =>
    unfold LookupTable.serve BoundedMap.serve
    rcases h.insert hr with ⟨t', es, m', ht, hm, hr⟩ | ⟨e, ht, hm⟩
    · simp only [ht, hm, true_and]
      exact hr
    · simp only [ht, hm, true_and]
      exact h
  | lookup p => exact ⟨congrArg Answer.found (h.lookup hr).1, (h.lookup hr).2⟩
  | contains p =>
    refine ⟨congrArg Answer.member ?_, h⟩
    unfold contains
    rcases h.find hr with ⟨i, s, k, hfind, -, hcount, -⟩ | ⟨hfind, hcount⟩ <;>
      rw [hfind, hcount] <;> rfl
  | accessCount p => exact ⟨congrArg Answer.accesses (h.accessCount?_eq hr), h⟩
  | stats =>
    refine ⟨congrArg Answer.counters ?_, h⟩
    rw [LookupTable.stats, BoundedMap.stats, h.bound, h.size, h.lookups, h.hits]
  | len => exact ⟨congrArg Answer.entries h.size, h⟩
  | clear => exact ⟨rfl, h.clear⟩

/-- **Any requests** have the same answers. -/
theorem serveAll (h : Refines t m) {rs : List Request} (hrs : ∀ r ∈ rs, r.WellFormed) :
    (serveAll LookupTable.serve t rs).1 = (serveAll BoundedMap.serve m rs).1 ∧
      Refines (serveAll LookupTable.serve t rs).2 (serveAll BoundedMap.serve m rs).2 := by
  induction rs generalizing t m with
  | nil => exact ⟨rfl, h⟩
  | cons r rs ih =>
    rw [List.forall_mem_cons] at hrs
    obtain ⟨hanswer, hstep⟩ := h.serve hrs.1
    obtain ⟨hanswers, hrest⟩ := ih hstep hrs.2
    exact ⟨congrArg₂ List.cons hanswer hanswers, hrest⟩

end Refines

/-! ### New tables -/

lemma leastPowerOfTwo_spec {c : ℕ} (h : 0 < c) :
    IsLeast {n | c ≤ n ∧ ∃ k, n = 2 ^ k} (leastPowerOfTwo c) := by
  unfold leastPowerOfTwo
  split
  · refine ⟨⟨by omega, 0, rfl⟩, ?_⟩
    rintro n ⟨hn, -⟩
    omega
  · have hne : c - 1 ≠ 0 := by omega
    rw [Nat.one_shiftLeft]
    refine ⟨⟨?_, _, rfl⟩, ?_⟩
    · have := @Nat.lt_log2_self (c - 1)
      omega
    · rintro n ⟨hn, k, rfl⟩
      -- `c - 1` is below `2 ^ k`, so its logarithm is below `k`
      have hk : (c - 1).log2 < k := (Nat.log2_lt hne).mpr (by omega)
      exact Nat.pow_le_pow_right (by decide) hk

/-- **A table is a bounded map.** A table that could be allocated for a capacity answers any
sequence of requests, about points on the curve or off it and in any form, as a map does that
is bounded by the least power of two that is at least the capacity, and it never has more entries
than that. All that it shows of its counters is the numbers of the map modulo `2 ^ 64`: they are
these numbers, and there are no more hits than look-ups, as long as there are fewer than `2 ^ 64`
requests. -/
theorem lookupTable_is_boundedMap {c : ℕ} (h : withCapacity c = .ok t) :
    IsLeast {n | c ≤ n ∧ ∃ k, n = 2 ^ k} t.capacity ∧
    ∀ rs : List Request, (∀ r ∈ rs, r.WellFormed) →
      let table := serveAll LookupTable.serve t rs
      let map := serveAll BoundedMap.serve (.empty t.capacity) rs
      table.1 = map.1 ∧ table.2.Refines map.2 ∧ table.2.capacity = t.capacity ∧
        table.2.entries ≤ t.capacity ∧ map.2.hits ≤ map.2.lookups ∧
        (rs.length < 2 ^ 64 → table.2.stats.lookups.toNat = map.2.lookups ∧
          table.2.stats.hits.toNat = map.2.hits ∧
          table.2.stats.hits ≤ table.2.stats.lookups ∧
          ∀ p : Point, p.WellFormed →
            (table.2.accessCount? p).map UInt64.toNat = map.2.count? p) := by
  obtain ⟨hc, rfl⟩ := withCapacity_eq_ok h
  have hleast := leastPowerOfTwo_spec hc
  have hpos : 0 < leastPowerOfTwo c := lt_of_lt_of_le hc hleast.1.1
  have hcapacity : capacity ⟨Array.replicate (leastPowerOfTwo c) none, 0, 0, 0⟩ =
      leastPowerOfTwo c := Array.size_replicate
  rw [hcapacity]
  refine ⟨hleast, ?_⟩
  intro rs hrs table map
  obtain ⟨hanswers, hr⟩ := (Refines.replicate hpos).serveAll hrs
  obtain ⟨hbound, hwithin⟩ := (BoundedMap.within_empty (leastPowerOfTwo c)).serveAll rs
  have hsize := hr.size_le
  rw [hbound, ← hr.size] at hsize
  refine ⟨hanswers, hr, hr.bound.trans hbound, hsize, hr.hits_le, fun hlen => ?_⟩
  rw [Nat.zero_add] at hwithin
  exact hr.shows_of_lt hwithin hlen

/-- A table for one point, which is off the curve, and has no room for the generator. -/
theorem lookupTable_is_boundedMap_one :
    let rs : List Request := [.insert (.ofAffine .one .one), .insert .generator,
      .lookup (.ofAffine .one .one), .accessCount (.ofAffine .one .one)]
    withCapacity 1 = .ok ⟨#[none], 0, 0, 0⟩ ∧ (∀ r ∈ rs, r.WellFormed) ∧ rs.length < 2 ^ 64 ∧
      (serveAll BoundedMap.serve (.empty 1) rs).1 =
        [.stored (.ok ()), .stored (.error (.tableFull 1)), .found (.ok (.ofAffine .one .one)),
          .accesses (some 1)] ∧
      (serveAll BoundedMap.serve (.empty 1) rs).2.count? (.ofAffine .one .one) = some 1 := by
  intro rs
  have h : withCapacity 1 = .ok ⟨#[none], 0, 0, 0⟩ := rfl
  have hstray : (Point.ofAffine .one .one).WellFormed :=
    Point.wellFormed_ofAffine FieldElement.isCanonical_one FieldElement.isCanonical_one
  have hrs : ∀ r ∈ rs, r.WellFormed := by
    simp only [rs, List.forall_mem_cons]
    exact ⟨hstray, Point.denotes_generator.wellFormed, hstray, hstray, by simp⟩
  have hlen : rs.length < 2 ^ 64 := by decide
  obtain ⟨hanswers, -, -, -, -, hshows⟩ := (lookupTable_is_boundedMap h).2 rs hrs
  obtain ⟨-, -, -, haccesses⟩ := hshows hlen
  exact ⟨h, hrs, hlen, hanswers.symm, (haccesses _ hstray).symm.trans (by decide +kernel)⟩

/-! ### Counters that go round -/

/-- Looking infinity up is counted, and changes nothing else. The induction is on the number of
requests. -/
lemma serveAll_replicate_lookup_infinity (t : LookupTable) (n : ℕ) :
    (serveAll LookupTable.serve t (.replicate n (.lookup .infinity))).2 =
      { t with lookups := t.lookups + .ofNat n } := by
  induction n generalizing t with
  | zero => simp [serveAll]
  | succ n ih =>
    have hstep : (t.serve (.lookup .infinity)).2 = { t with lookups := t.lookups + 1 } := rfl
    rw [List.replicate_succ, serveAll_cons_snd, hstep, ih, Nat.add_comm, UInt64.ofNat_add,
      ← UInt64.add_assoc]
    rfl

/-- The generator is found once, and then nothing is found `n` times. -/
lemma stats_of_misses (n : ℕ) :
    let t := (serveAll LookupTable.serve ⟨#[none], 0, 0, 0⟩
      (.insert .generator :: .lookup .generator :: .replicate n (.lookup .infinity))).2
    t.stats.lookups = 1 + .ofNat n ∧ t.stats.hits = 1 := by
  intro t
  obtain ⟨u, hu, hlookups, hhits⟩ : ∃ u : LookupTable,
      ((serve ⟨#[none], 0, 0, 0⟩ (.insert .generator)).2.serve (.lookup .generator)).2 = u ∧
        u.lookups = 1 ∧ u.hits = 1 := ⟨_, rfl, by decide +kernel, by decide +kernel⟩
  have ht : t = { u with lookups := u.lookups + .ofNat n } := by
    rw [← serveAll_replicate_lookup_infinity, ← hu]
    rfl
  rw [ht]
  exact ⟨congrArg (· + UInt64.ofNat n) hlookups, hhits⟩

/-- **A table can show more hits than look-ups.** One look-up finds a point, and `2 ^ 64 - 1` more
find nothing, so that the look-ups are back at zero. -/
theorem hits_exceed_lookups :
    let t : LookupTable := ⟨#[none], 0, 0, 0⟩
    let rs : List Request := .insert .generator :: .lookup .generator ::
      .replicate (2 ^ 64 - 1) (.lookup .infinity)
    withCapacity 1 = .ok t ∧ (∀ r ∈ rs, r.WellFormed) ∧
      (serveAll LookupTable.serve t rs).2.stats.lookups = 0 ∧
      (serveAll LookupTable.serve t rs).2.stats.hits = 1 := by
  intro t rs
  have hgenerator : Point.generator.WellFormed := Point.denotes_generator.wellFormed
  have hrs : ∀ r ∈ rs, r.WellFormed := by
    simp only [rs, List.forall_mem_cons]
    refine ⟨hgenerator, hgenerator, fun r hr => ?_⟩
    obtain rfl := List.eq_of_mem_replicate hr
    exact Point.denotes_infinity.wellFormed
  obtain ⟨hlookups, hhits⟩ := stats_of_misses (2 ^ 64 - 1)
  exact ⟨rfl, hrs, hlookups.trans (by decide), hhits⟩

end LookupTable

end Secp256k1
