import Secp256k1.LookupTable
import Secp256k1.Multiplication.Blinding
import Secp256k1.Point.Generator

/-!
Contexts.

A context holds the settings, the generator's table of odd multiples if the settings ask for
one, a cache of validated points if they ask for one, and counters. The higher operations are
computations with a context as their store, so that what they leave in the cache and in the
counters is there for the next one.

Under strict validation a cached point is taken for valid. The cache is filled by validation
itself and by `cachePoint`.
-/

namespace Secp256k1

/-- How often a context has done what. Each counter is one word, and counting goes on at zero after
the greatest one. -/
structure Counters where
  scalarMultiplications : UInt64 := 0
  cacheHits : UInt64 := 0
  cacheMisses : UInt64 := 0
  signatures : UInt64 := 0
  verifications : UInt64 := 0
  deriving DecidableEq, Inhabited

structure Context where
  config : Config
  table : Option OddMultiples
  cache : Option LookupTable
  counters : Counters

/-- A computation in a context, with a source of randomness of type `σ`. -/
abbrev Session (σ α : Type) : Type := Engine σ Context α

namespace Context

/-- The context with the given settings, if they make sense. -/
def create {σ ω : Type} (config : Config) : Engine σ ω Context := do
  config.validate
  let table ← config.windowSize.mapM fun w => OddMultiples.create .generator w.toNat
  let cache ← config.cacheCapacity.mapM fun n => LookupTable.create n.toNat
  Engine.report [.contextCreated config.algorithm config.validation config.sideChannel]
  return ⟨config, table, cache, {}⟩

/-- The generator's table, where the point is the generator. -/
def tableFor (c : Context) (p : Point) : Option OddMultiples := c.table.filter (·.isFor p)

/-- Whether a point is in the cache. -/
def isCached (c : Context) (p : Point) : Bool := c.cache.any (·.contains p)

/-- What the context has counted so far. -/
def stats (c : Context) : Counters := c.counters

/-- The counters of the cache, if there is one. -/
def lookupStats (c : Context) : Option LookupStats := c.cache.map (·.stats)

variable {σ : Type}

/-- Count what has been done. -/
def count (f : Counters → Counters) : Session σ Unit :=
  Engine.update fun c => { c with counters := f c.counters }

def countMultiplication : Session σ Unit :=
  count fun n => { n with scalarMultiplications := n.scalarMultiplications + 1 }

def countHit : Session σ Unit := count fun n => { n with cacheHits := n.cacheHits + 1 }

def countMiss : Session σ Unit := count fun n => { n with cacheMisses := n.cacheMisses + 1 }

def countSignature : Session σ Unit := count fun n => { n with signatures := n.signatures + 1 }

def countVerification : Session σ Unit :=
  count fun n => { n with verifications := n.verifications + 1 }

/-! ### The cache -/

/-- Put a point into the cache, checked or not. -/
def cachePoint (p : Point) : Session σ Unit := do
  match (← Engine.stored).cache with
  | none => throw (.invalidParameter "EccContext::cache_point" "lookup table disabled")
  | some t =>
    let (t, events) ← t.insert p
    Engine.update fun c => { c with cache := some t }
    Engine.report events

/-- The cached copy of a point. -/
def cachedPoint (p : Point) : Session σ Point := do
  match (← Engine.stored).cache with
  | none => throw (.pointNotFound "EccContext::cached_point")
  | some t =>
    let (found, t) := t.lookup p
    Engine.update fun c => { c with cache := some t }
    match found with
    | .ok q => do countHit; return q
    | .error e => do countMiss; throw e

/-- Empty the cache, if there is one. -/
def clearCache : Session σ Unit :=
  Engine.update fun c => { c with cache := c.cache.map (·.clear) }

/-- Put a point into the cache if there is room for it. A full cache only costs another
validation later on. -/
def remember (p : Point) : Session σ Unit := do
  if (← Engine.stored).cache.isSome then
    tryCatch (cachePoint p) fun e =>
      if e.isCacheMiss then Engine.report [.cacheNotUpdated e] else throw e

/-! ### Validation -/

/-- Check a point as thoroughly as the settings ask for. -/
def validatePoint (p : Point) : Session σ Unit := do
  let c ← Engine.stored
  match c.config.validation with
  | .off => return
  | .onCurve => p.validate
  | .strict =>
    if p.isInfinity then return
    if c.isCached p then countHit
    else
      countMiss
      p.toAffine.validate
      remember p.toAffine

/-- Check a public key, which is a finite point. -/
def validatePublicKey (p : Point) : Session σ Unit := do
  if p.isInfinity then throw (.pointAtInfinity "EccContext::validate_public_key")
  validatePoint p

/-! ### Multiplication -/

/-- `k * p` for a public scalar, by the given algorithm. -/
def multiplyWith (algorithm : Algorithm) (k : U256) (p : Point) : Session σ Point := do
  validatePoint p
  countMultiplication
  Multiplication.perform algorithm k p ((← Engine.stored).tableFor p)

/-- `k * p` for a public scalar, by the configured algorithm. -/
def multiply (k : U256) (p : Point) : Session σ Point := do
  multiplyWith (← Engine.stored).config.algorithm k p

/-- `k * G` for a public scalar. -/
def multiplyGenerator (k : U256) : Session σ Point := multiply k .generator

/-- `k * p` for a secret scalar, hidden as the settings ask for. -/
def multiplySecret [RandomSource σ] (k : Scalar) (p : Point) : Session σ Point := do
  validatePoint p
  countMultiplication
  let c ← Engine.stored
  Engine.report [.secretMultiplication c.config.sideChannel]
  match c.config.sideChannel with
  | .none => Multiplication.perform c.config.algorithm k.value p (c.tableFor p)
  | .constantTime => Multiplication.montgomeryLadder k.value p
  | .blinded => Multiplication.performBlinded .montgomeryLadder k.value p
  | .blindedRandomized => Multiplication.performBlinded .montgomeryLadder k.value (← p.randomize)

end Context

end Secp256k1
