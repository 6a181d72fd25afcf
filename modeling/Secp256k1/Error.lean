/-!
The ways an operation can fail.

An error names the operation that found it (its *context*) and, where the cause has variants,
says which one it was. Two causes are mere cache misses, from which a caller recovers by
computing the value again, and one cause may go away with fresh randomness.
-/

namespace Secp256k1

inductive Error where
  /-- A malformed or out-of-range argument. -/
  | invalidParameter (context message : String)
  /-- A byte string of the wrong length. -/
  | invalidLength (context : String) (expected actual : Nat)
  /-- Coordinates off the curve. -/
  | pointNotOnCurve (context : String)
  /-- The point at infinity where a finite point is needed. -/
  | pointAtInfinity (context : String)
  /-- A scalar out of its range. -/
  | invalidScalar (context message : String)
  /-- A table larger than the address space. -/
  | memoryAllocation (context : String) (requested : Nat)
  /-- A computation that degenerated, or that used up its attempts. -/
  | computationFailed (context message : String)
  /-- Signature components out of their range. -/
  | invalidSignature (context message : String)
  /-- A well-formed signature that belongs to another key or digest. -/
  | verificationFailed (context : String)
  /-- A lookup table without a free slot. -/
  | tableFull (capacity : Nat)
  /-- A point that a lookup table does not hold. -/
  | pointNotFound (context : String)
  deriving DecidableEq, Inhabited

namespace Error

/-- The text shown to a user. -/
def message : Error → String
  | invalidParameter c m => "invalid parameter in " ++ c ++ ": " ++ m
  | invalidLength c e a =>
    "invalid length for " ++ c ++ ": expected " ++ toString e ++ ", got " ++ toString a
  | pointNotOnCurve c => "point not on curve in " ++ c
  | pointAtInfinity c => "unexpected point at infinity in " ++ c
  | invalidScalar c m => "invalid scalar in " ++ c ++ ": " ++ m
  | memoryAllocation c r =>
    "memory allocation failed in " ++ c ++ " (" ++ toString r ++ " entries)"
  | computationFailed c m => "computation failed in " ++ c ++ ": " ++ m
  | invalidSignature c m => "invalid signature in " ++ c ++ ": " ++ m
  | verificationFailed c => "signature verification failed in " ++ c
  | tableFull n => "lookup table full (" ++ toString n ++ " slots)"
  | pointNotFound c => "point not found in " ++ c

/-- The result code, where 0 is left to success. The two kinds of malformed argument share one. -/
def code : Error → Nat
  | invalidParameter .. | invalidLength .. => 1
  | pointNotOnCurve _ => 2
  | pointAtInfinity _ => 3
  | invalidScalar .. => 4
  | memoryAllocation .. => 5
  | computationFailed .. => 6
  | pointNotFound _ => 7
  | tableFull _ => 8
  | invalidSignature .. => 9
  | verificationFailed _ => 10

/-- A failure local to a cache: the caller goes on without it. -/
def isCacheMiss : Error → Bool
  | tableFull _ | pointNotFound _ => true
  | _ => false

/-- A failure that fresh randomness may cure. -/
def isRetryable : Error → Bool
  | computationFailed .. => true
  | _ => false

end Error

/-! ### Guards -/

/-- Go on only if `condition` holds. -/
@[inline] def require (condition : Bool) (e : Error) : Except Error Unit :=
  if condition then .ok () else .error e

@[inline] def requireParameter (condition : Bool) (context reason : String) : Except Error Unit :=
  require condition (.invalidParameter context reason)

@[inline] def requireScalar (condition : Bool) (context reason : String) : Except Error Unit :=
  require condition (.invalidScalar context reason)

@[inline] def requireOnCurve (condition : Bool) (context : String) : Except Error Unit :=
  require condition (.pointNotOnCurve context)

@[inline] def requireLength (context : String) (actual expected : Nat) : Except Error Unit :=
  require (actual == expected) (.invalidLength context expected actual)

/-- What was required and went on did hold. -/
theorem of_require_eq_ok {condition : Bool} {e : Error} {u : Unit}
    (h : require condition e = .ok u) : condition = true := by
  cases condition with
  | false => cases h
  | true => rfl

/-- What succeeds as a whole succeeds step by step. -/
theorem exists_of_bind_eq_ok {α β : Type} {x : Except Error α} {f : α → Except Error β} {b : β}
    (h : x >>= f = .ok b) : ∃ a, x = .ok a ∧ f a = .ok b := by
  cases x with
  | error e => cases h
  | ok a => exact ⟨a, rfl, h⟩

end Secp256k1
