import Secp256k1.Error
import Secp256k1.Named
import Secp256k1.Parameters
import Secp256k1.Point.Basic

/-!
The settings of a context.

A setting is free to hold any value until a context is made of it; `validate` says which ones
make sense.
-/

namespace Secp256k1

/-- The ways to multiply a point by a scalar. -/
inductive Algorithm where
  /-- One doubling per bit, one addition per set bit. -/
  | doubleAndAdd
  /-- One doubling and one addition per bit of the full width. -/
  | montgomeryLadder
  /-- Signed odd digits, looked up in a table of odd multiples. -/
  | windowedNaf
  deriving DecidableEq, Inhabited

instance : Named Algorithm where
  all := [.doubleAndAdd, .montgomeryLadder, .windowedNaf]
  name
    | .doubleAndAdd => "DoubleAndAdd"
    | .montgomeryLadder => "MontgomeryLadder"
    | .windowedNaf => "WindowedNaf"

/-- How thoroughly a context checks the points handed to it. -/
inductive ValidationLevel where
  /-- Not at all. -/
  | off
  /-- The equation of the curve, on every use. -/
  | onCurve
  /-- The equation of the curve, once per point: valid points are remembered. -/
  | strict
  deriving DecidableEq, Inhabited

instance : Named ValidationLevel where
  all := [.off, .onCurve, .strict]
  name
    | .off => "Off"
    | .onCurve => "OnCurve"
    | .strict => "Strict"

/-- What is done to hide a secret scalar. -/
inductive Protection where
  /-- Nothing: the configured algorithm runs as it is. -/
  | none
  /-- The ladder runs, whatever the algorithm. -/
  | constantTime
  /-- The ladder runs on a blinded scalar. -/
  | blinded
  /-- The ladder runs on a blinded scalar and a point in randomised coordinates. -/
  | blindedRandomized
  deriving DecidableEq, Inhabited

instance : Named Protection where
  all := [.none, .constantTime, .blinded, .blindedRandomized]
  name
    | .none => "None"
    | .constantTime => "ConstantTime"
    | .blinded => "Blinded"
    | .blindedRandomized => "BlindedRandomized"

instance : Named CoordinateSystem where
  all := [.affine, .jacobian]
  name
    | .affine => "Affine"
    | .jacobian => "Jacobian"

structure Config where
  /-- For public scalars. -/
  algorithm : Algorithm := .montgomeryLadder
  validation : ValidationLevel := .strict
  /-- For secret scalars. -/
  sideChannel : Protection := .blinded
  /-- The window of the generator's table, if there is to be one. -/
  windowSize : Option UInt64 := some Parameters.defaultWindow.toUInt64
  /-- The slots of the point cache, if there is to be one. -/
  cacheCapacity : Option UInt64 := some Parameters.defaultCacheCapacity.toUInt64
  /-- The bound on redraws of nonces and of private keys. -/
  maxAttempts : UInt32 := Parameters.defaultAttempts.toUInt32
  /-- Whether signatures are brought to the form with the smaller `s`. -/
  canonicalSignatures : Bool := true
  deriving DecidableEq, Inhabited

namespace Config

/-- The default settings. -/
def standard : Config := {}

/-- No tables, no countermeasures, no checks. -/
def minimal : Config :=
  { algorithm := .doubleAndAdd
    validation := .off
    sideChannel := .none
    windowSize := none
    cacheCapacity := none }

/-- Refuse settings that no context can have. -/
def validate (c : Config) : Except Error Unit := do
  if let some w := c.windowSize then
    requireParameter (Parameters.minWindow ≤ w.toNat && w.toNat ≤ Parameters.maxWindow)
      "EccConfig" "window size must be between 2 and 8"
  if let some n := c.cacheCapacity then
    requireParameter (0 < n) "EccConfig" "lookup table capacity must be non-zero"
  requireParameter (0 < c.maxAttempts) "EccConfig" "at least one signing attempt is required"

end Config

end Secp256k1
