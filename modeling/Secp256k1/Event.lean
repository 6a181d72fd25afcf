import Secp256k1.Config

/-!
What the library reports while it works.

An event is a value; its line of text is the level, a space and the message. Events never hold
a secret: of a blinded scalar only the length is told.
-/

namespace Secp256k1

inductive Event where
  /-- A table of odd multiples was built. -/
  | tableBuilt (window entries : Nat)
  /-- A lookup table was made. -/
  | lookupTableAllocated (slots : Nat)
  /-- A point was stored, after a number of occupied slots had been passed. -/
  | pointCached (slot probes : Nat)
  /-- A validated point could not be stored. -/
  | cacheNotUpdated (cause : Error)
  /-- Windowed multiplication was asked for, but there is no table. -/
  | tableMissing
  /-- A multiplication by a blinded scalar of the given length begins. -/
  | blindedMultiplication (bits : Nat)
  /-- A multiplication by a secret scalar begins. -/
  | secretMultiplication (policy : Protection)
  | contextCreated (algorithm : Algorithm) (validation : ValidationLevel) (policy : Protection)
  | keyPairGenerated
  /-- The nonce point of a signature is infinity. -/
  | noncePointAtInfinity (attempt : Nat)
  /-- The first component of a signature is zero. -/
  | zeroR (attempt : Nat)
  /-- The second component of a signature is zero. -/
  | zeroS (attempt : Nat)
  | signatureProduced (attempts : Nat)
  deriving DecidableEq

namespace Event

/-- How loud an event is. -/
def level : Event → String
  | cacheNotUpdated _ | tableMissing | noncePointAtInfinity _ | zeroR _ | zeroS _ => "WARN"
  | blindedMultiplication _ | secretMultiplication _ => "TRACE"
  | _ => "DEBUG"

/-- The text that warns of a nonce given up at an attempt. -/
def retryMessage (cause : String) (attempt : Nat) : String :=
  "ECDSA " ++ cause ++ " (attempt " ++ toString attempt ++ "), retrying"

def message : Event → String
  | tableBuilt w n =>
    "built window-" ++ toString w ++ " precomputation table (" ++ toString n ++ " odd multiples)"
  | lookupTableAllocated n => "allocated point lookup table with " ++ toString n ++ " slots"
  | pointCached i k => "cached point in slot " ++ toString i ++ " after " ++ toString k ++ " probes"
  | cacheNotUpdated e => "point cache not updated: " ++ e.message
  | tableMissing =>
    "windowed NAF requested without a precomputation table, using double-and-add"
  | blindedMultiplication n => "multiplying with a " ++ toString n ++ "-bit blinded scalar"
  | secretMultiplication p => "secret multiplication under " ++ Named.name p
  | contextCreated a v p =>
    "created context: algorithm=" ++ Named.name a ++ " validation=" ++ Named.name v ++
      " side_channel=" ++ Named.name p
  | keyPairGenerated => "generated secp256k1 key pair"
  | noncePointAtInfinity n => retryMessage "nonce point at infinity" n
  | zeroR n => retryMessage "produced r = 0" n
  | zeroS n => retryMessage "produced s = 0" n
  | signatureProduced n => "ECDSA signature produced after " ++ toString n ++ " attempt(s)"

/-- The line of text. -/
def line (e : Event) : String := e.level ++ " " ++ e.message

end Event

end Secp256k1
