import Secp256k1.Engine.Basic
import Secp256k1.Point.Group

/-!
Tables of odd multiples.

For a window `w` the table of a base point holds its multiples by `1, 3, 5, …, 2 ^ w - 1`, so
that the product of the base and any signed digit of the window can be read off it.
-/

namespace Secp256k1

structure OddMultiples where
  base : Point
  window : Nat
  /-- Entry `i` is the multiple by `2 * i + 1`. -/
  entries : List Point
  /-- The fingerprints of the base and of the last entry, added. -/
  fingerprint : FieldElement

namespace OddMultiples

/-- So many points after `p`, each the one before it plus `step`. -/
def progression (step : Point) : Nat → Point → Except Error (List Point)
  | 0, _ => return []
  | n + 1, p => do
    let next ← p.add step
    return next :: (← progression step n next)

/-- The table of a finite point on the curve. -/
def build (base : Point) (window : Nat) : Except Error OddMultiples := do
  requireParameter (Parameters.minWindow ≤ window && window ≤ Parameters.maxWindow)
    "PrecomputationTable::new" "window size must be between 2 and 8"
  if base.isInfinity then throw (.pointAtInfinity "PrecomputationTable::new")
  base.validate
  let base := base.toAffine
  let further ← progression (← base.double) ((1 <<< (window - 1)) - 1) base
  return {
    base, window
    entries := base :: further
    fingerprint := base.fingerprint + (further.getLastD base).fingerprint }

/-- As `build`, and tell of it. -/
def create {σ ω : Type} (base : Point) (window : Nat) : Engine σ ω OddMultiples := do
  let t ← build base window
  Engine.report [.tableBuilt window t.entries.length]
  return t

/-- Whether the table belongs to a point. -/
def isFor (t : OddMultiples) (p : Point) : Bool := t.base.equals p

/-- The product of the base and an odd digit of the window. -/
def select (t : OddMultiples) (digit : Int16) : Except Error Point := do
  let d := digit.toInt
  requireParameter (d % 2 != 0) "PrecomputationTable::select" "digit must be odd"
  match t.entries[(d.natAbs - 1) / 2]? with
  | none =>
    throw (.invalidParameter "PrecomputationTable::select" "digit exceeds the table window")
  | some p => return if d < 0 then p.neg else p

end OddMultiples

end Secp256k1
