import Secp256k1.Ecdsa.Signature
import Secp256k1.Config
import Secp256k1.Json.Parser

/-!
The JSON forms of settings, signatures and integers.

Each type has one written form. Reading accepts more: an integer in any form that hexadecimal
text may have, a record with its members in any order or as an array, settings with members
missing, which take their defaults.
-/

namespace Secp256k1

/-! ### Names -/

/-- A named value is written as the string of its name. -/
def Named.toJson {α : Type} [Named α] (a : α) : String := Json.quote (Named.name a)

/-- A name, either as a string or as the only member of an object, with the value null. -/
def Named.ofJson? {α : Type} [Named α] : Json → Option α
  | .string (some text) => Named.ofName? text
  | .object [(some text, .null)] => Named.ofName? text
  | _ => none

/-! ### Integers -/

/-- An integer below a bound, written in decimal digits. -/
def Json.toBounded? (bound : Nat) (j : Json) : Option Nat := j.toNat?.filter (· < bound)

def Json.toUInt64? (j : Json) : Option UInt64 := (j.toBounded? UInt64.size).map (·.toUInt64)

def Json.toUInt32? (j : Json) : Option UInt32 := (j.toBounded? UInt32.size).map (·.toUInt32)

def U256.toJson (a : U256) : String := Json.quote a.toHex

def U256.ofJson? (j : Json) : Option U256 := do (U256.ofHex (← j.toText?)).toOption

/-! ### Signatures -/

namespace Signature

def toJson (g : Signature) : String := Json.writeObject [("r", g.r.toJson), ("s", g.s.toJson)]

/-- Both components have to be there. -/
def ofJson? (j : Json) : Option Signature := do
  let members ← j.record? ["r", "s"]
  return ⟨← U256.ofJson? (← members.lookup "r"), ← U256.ofJson? (← members.lookup "s")⟩

end Signature

/-! ### Settings -/

namespace Config

def toJson (c : Config) : String :=
  Json.writeObject [
    ("algorithm", Named.toJson c.algorithm),
    ("validation", Named.toJson c.validation),
    ("side_channel", Named.toJson c.sideChannel),
    ("window_size", Json.writeOption (fun w => toString w.toNat) c.windowSize),
    ("lookup_table_capacity", Json.writeOption (fun n => toString n.toNat) c.cacheCapacity),
    ("max_signing_attempts", toString c.maxAttempts.toNat),
    ("canonical_signatures", Json.writeBool c.canonicalSignatures)]

/-- The names of the settings. -/
def names : List String :=
  ["algorithm", "validation", "side_channel", "window_size", "lookup_table_capacity",
    "max_signing_attempts", "canonical_signatures"]

/-- The settings with one of them, given by its name, changed. -/
def set? (c : Config) (name : String) (j : Json) : Option Config :=
  match name with
  | "algorithm" => (Named.ofJson? j).map fun v => { c with algorithm := v }
  | "validation" => (Named.ofJson? j).map fun v => { c with validation := v }
  | "side_channel" => (Named.ofJson? j).map fun v => { c with sideChannel := v }
  | "window_size" => (j.toOption? Json.toUInt64?).map fun v => { c with windowSize := v }
  | "lookup_table_capacity" =>
    (j.toOption? Json.toUInt64?).map fun v => { c with cacheCapacity := v }
  | "max_signing_attempts" => j.toUInt32?.map fun v => { c with maxAttempts := v }
  | "canonical_signatures" => j.toBool?.map fun v => { c with canonicalSignatures := v }
  | _ => none

/-- What is missing keeps its default. -/
def ofJson? (j : Json) : Option Config := do
  (← j.record? names).foldlM (fun c (name, value) => c.set? name value) standard

end Config

end Secp256k1
