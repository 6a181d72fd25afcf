import Secp256k1.Engine.Basic
import Secp256k1.Point.Group

/-!
A table of points known to be valid.

It is a hash table with open addressing: a point is looked for from the slot of its hash on,
one slot after the other, up to the first free one. Points are kept in affine form and are told
apart by their coordinates, so it does not matter in what form a point is handed in. Every slot
counts how often its point has been found or stored again; the table counts its look-ups and
how many of them found something. Each of these counters is one word, and counting goes on at zero
after the greatest one. Entries are never taken out one by one.
-/

namespace Secp256k1

/-- A hash of the two low words of each affine coordinate. -/
def Point.hash (p : Point) : UInt64 :=
  let q := p.toAffine
  let h := q.x.value.w0 ^^^ (q.y.value.w0 <<< 1) ^^^ (q.x.value.w1 <<< 2) ^^^
    (q.y.value.w1 <<< 3)
  let h := h * 0x9E3779B97F4A7C15
  let h := (h ^^^ (h >>> 30)) * 0xBF58476D1CE4E5B9
  let h := (h ^^^ (h >>> 27)) * 0x94D049BB133111EB
  h ^^^ (h >>> 31)

/-- The counters of a table. -/
structure LookupStats where
  capacity : Nat
  entries : Nat
  lookups : UInt64
  hits : UInt64

/-- The share of look-ups that found something, 0 before the first one. -/
def LookupStats.hitRate (s : LookupStats) : Float :=
  if s.lookups == 0 then 0 else s.hits.toFloat / s.lookups.toFloat

namespace LookupTable

/-- An occupied slot. -/
structure Slot where
  /-- In affine form. -/
  point : Point
  hash : UInt64
  /-- How often the point has been found or stored again. -/
  accesses : UInt64
  deriving DecidableEq

/-- Whether the slot holds the affine point `p`, whose hash is `hash`. -/
def Slot.holds (s : Slot) (hash : UInt64) (p : Point) : Bool :=
  s.hash == hash && s.point.x == p.x && s.point.y == p.y

def Slot.touch (s : Slot) : Slot := { s with accesses := s.accesses + 1 }

end LookupTable

structure LookupTable where
  slots : Array (Option LookupTable.Slot)
  /-- The number of occupied slots. -/
  entries : Nat
  lookups : UInt64
  hits : UInt64

namespace LookupTable

/-- The bytes that one slot takes. -/
def slotBytes : Nat := 160

/-- The most slots that the address space has room for. -/
def maxSlots : Nat := (UInt64.size / 2 - 1) / slotBytes

/-- The least power of two that is at least `n`. -/
def leastPowerOfTwo (n : Nat) : Nat := if n ≤ 1 then 1 else 1 <<< ((n - 1).log2 + 1)

/-- An empty table with the least power of two of slots that is at least `capacity`. -/
def withCapacity (capacity : Nat) : Except Error LookupTable := do
  requireParameter (0 < capacity) "PointLookupTable::with_capacity" "capacity must be non-zero"
  if UInt64.size / 2 < capacity then
    throw (.memoryAllocation "PointLookupTable::with_capacity" capacity)
  let size := leastPowerOfTwo capacity
  if maxSlots < size then throw (.memoryAllocation "PointLookupTable::with_capacity" size)
  return ⟨Array.replicate size none, 0, 0, 0⟩

/-- As `withCapacity`, and tell of it. -/
def create {σ ω : Type} (capacity : Nat) : Engine σ ω LookupTable := do
  let t ← withCapacity capacity
  Engine.report [.lookupTableAllocated t.slots.size]
  return t

def capacity (t : LookupTable) : Nat := t.slots.size

def isEmpty (t : LookupTable) : Bool := t.entries == 0

/-- What the search for a point ends at. -/
inductive Outcome where
  /-- The slot of the point. -/
  | occupied (index : Nat) (slot : Slot)
  /-- A free slot, after a number of slots with other points. -/
  | free (index probes : Nat)
  /-- Neither, in the whole table. -/
  | exhausted

/-- Look at so many slots, the first of which is `probes` after the slot of the hash. -/
def probe (t : LookupTable) (hash : UInt64) (p : Point) : Nat → Nat → Outcome
  | 0, _ => .exhausted
  | n + 1, probes =>
    let index := (hash.toNat + probes) % t.slots.size
    match t.slots[index]? with
    | none => .exhausted
    | some none => .free index probes
    | some (some slot) =>
      if slot.holds hash p then .occupied index slot else probe t hash p n (probes + 1)

/-- Search for a finite point. -/
def search (t : LookupTable) (p : Point) : Outcome :=
  let q := p.toAffine
  probe t q.hash q t.slots.size 0

/-- The slot of a point; infinity has none. -/
def find? (t : LookupTable) (p : Point) : Option (Nat × Slot) :=
  if p.isInfinity then none
  else
    match t.search p with
    | .occupied index slot => some (index, slot)
    | _ => none

/-- The table with the access of a slot counted. -/
def touch (t : LookupTable) (index : Nat) (slot : Slot) : LookupTable :=
  { t with slots := t.slots.setIfInBounds index (some slot.touch) }

/-- Store a finite point, and list what is to be told of it. A point that is there already is
only counted, and a full table takes no other point. -/
def insert (t : LookupTable) (p : Point) : Except Error (LookupTable × List Event) := do
  if p.isInfinity then throw (.pointAtInfinity "PointLookupTable::insert")
  match t.search p with
  | .occupied index slot => return (t.touch index slot, [])
  | .free index probes =>
    let q := p.toAffine
    return ({ t with
        slots := t.slots.setIfInBounds index (some ⟨q, q.hash, 0⟩)
        entries := t.entries + 1 },
      [.pointCached index probes])
  | .exhausted => throw (.tableFull t.slots.size)

/-- The stored copy of a point. The look-up is counted, and so is the access if there is one. -/
def lookup (t : LookupTable) (p : Point) : Except Error Point × LookupTable :=
  let t := { t with lookups := t.lookups + 1 }
  match t.find? p with
  | some (index, slot) => (.ok slot.point, { t.touch index slot with hits := t.hits + 1 })
  | none => (.error (.pointNotFound "PointLookupTable::lookup"), t)

/-- Whether a point is stored. Nothing is counted. -/
def contains (t : LookupTable) (p : Point) : Bool := (t.find? p).isSome

/-- How often a stored point has been found or stored again. -/
def accessCount? (t : LookupTable) (p : Point) : Option UInt64 := (t.find? p).map (·.2.accesses)

def stats (t : LookupTable) : LookupStats := ⟨t.slots.size, t.entries, t.lookups, t.hits⟩

/-- The table without its points, and with its counters at zero. -/
def clear (t : LookupTable) : LookupTable := ⟨Array.replicate t.slots.size none, 0, 0, 0⟩

end LookupTable

end Secp256k1
