import Secp256k1.Serial
import Secp256k1.Proofs.JsonText
import Secp256k1.Proofs.Numerals

/-!
Values in JSON.

A form round-trips when what is written of a value is read as that value, wherever it stands. The
seven settings of a configuration do so, each in its own form, and none of them touches another;
so that an object may name any of them in any order, and what it does not name stays as it was.
-/

namespace Secp256k1

open Json

/-! ### Round trips -/

/-- What is written of a value is read as that value. -/
def RoundTrips {α : Type} (write : α → String) (read : Json → Option α) : Prop :=
  ∀ a, ∃ j, ReadAs (write a) j ∧ read j = some a

lemma RoundTrips.parse {α : Type} {write : α → String} {read : Json → Option α}
    (h : RoundTrips write read) (a : α) : (Json.parse? (write a)).bind read = some a := by
  obtain ⟨j, hread, hj⟩ := h a
  rw [hread.parse?, Option.bind_some, hj]

/-- Nothing is written as null, which is no value of its own. -/
lemma RoundTrips.option {α : Type} {write : α → String} {read : Json → Option α}
    (h : RoundTrips write read) (hnull : read null = none) :
    RoundTrips (writeOption write) (toOption? read) := by
  intro a
  cases a with
  | none => exact ⟨null, readAs_null, rfl⟩
  | some a =>
    obtain ⟨j, hread, hj⟩ := h a
    refine ⟨j, hread, ?_⟩
    unfold toOption?
    split
    · rw [hnull] at hj
      cases hj
    · rw [hj, Option.map_some]

lemma roundTrips_bool : RoundTrips writeBool toBool? := fun b => ⟨.bool b, readAs_writeBool b, rfl⟩

lemma toBounded?_toDigits {bound n : ℕ} (h : n < bound) :
    toBounded? bound (.number (Nat.toDigits 10 n)) = some n := by
  have hall : (Nat.toDigits 10 n).all Char.isDigit = true :=
    List.all_eq_true.mpr fun _ => isDigit_of_mem
  rw [toBounded?, toNat?, if_pos hall, Nat.ofDigitChars_ten_toDigits, Option.filter_some,
    if_pos (by simpa using h)]

lemma roundTrips_toUInt64 : RoundTrips (fun n : UInt64 => toString n.toNat) toUInt64? := by
  intro n
  refine ⟨_, readAs_toString _, ?_⟩
  rw [toUInt64?, toBounded?_toDigits n.toNat_lt_size, Option.map_some, Nat.toUInt64_eq,
    UInt64.ofNat_toNat]

lemma roundTrips_toUInt32 : RoundTrips (fun n : UInt32 => toString n.toNat) toUInt32? := by
  intro n
  refine ⟨_, readAs_toString _, ?_⟩
  rw [toUInt32?, toBounded?_toDigits n.toNat_lt_size, Option.map_some, Nat.toUInt32_eq,
    UInt32.ofNat_toNat]

/-- Names that tell the values apart. -/
lemma Named.roundTrips {α : Type} [Named α]
    (h : ∀ a : α, Named.ofName? (Named.name a) = some a) :
    RoundTrips (Named.toJson (α := α)) Named.ofJson? :=
  fun a => ⟨_, readAs_quote _, h a⟩

/-! ### Integers and signatures -/

lemma U256.ofJson?_string (text : String) :
    U256.ofJson? (.string (some text)) = (U256.ofHex text).toOption := rfl

/-- An integer is read from nothing but a string. -/
lemma U256.ofJson?_eq_some_iff {j : Json} {v : U256} :
    U256.ofJson? j = some v ↔ ∃ text, j = .string (some text) ∧ U256.ofHex text = .ok v := by
  constructor
  · intro h
    obtain ⟨text, htext, hv⟩ := Option.bind_eq_some_iff.mp h
    cases j with
    | string text' =>
      cases htext
      refine ⟨text, rfl, ?_⟩
      cases hhex : U256.ofHex text with
      | error e => rw [hhex] at hv; cases hv
      | ok v' => rw [hhex] at hv; exact congrArg _ (Option.some.inj hv)
    | _ => cases htext
  · rintro ⟨text, rfl, hv⟩
    rw [U256.ofJson?_string, hv]
    rfl

lemma U256.roundTrips : RoundTrips U256.toJson U256.ofJson? := fun a =>
  ⟨_, readAs_quote _, U256.ofJson?_eq_some_iff.mpr ⟨_, rfl, a.ofHex_toHex⟩⟩

lemma Signature.parse_toJson (g : Signature) :
    (Json.parse? g.toJson).bind Signature.ofJson? = some g := by
  obtain ⟨r, hr, hr'⟩ := U256.roundTrips g.r
  obtain ⟨s, hs, hs'⟩ := U256.roundTrips g.s
  have hparse : Json.parse? g.toJson = some (.object [(some "r", r), (some "s", s)]) :=
    parse?_writeObject (.cons ⟨rfl, hr⟩ (.cons ⟨rfl, hs⟩ .nil))
  have hmembers : (Json.object [(some "r", r), (some "s", s)]).record? ["r", "s"] =
      some [("r", r), ("s", s)] := by
    simp [record?]
  rw [hparse, Option.bind_some, Signature.ofJson?, hmembers]
  simp [List.lookup_cons, hr', hs']

namespace Config

/-! ### Settings -/

inductive Setting where
  | algorithm
  | validation
  | sideChannel
  | windowSize
  | cacheCapacity
  | maxAttempts
  | canonicalSignatures
  deriving DecidableEq

namespace Setting

/-- The settings in the order in which they are written. -/
def all : List Setting :=
  [algorithm, validation, sideChannel, windowSize, cacheCapacity, maxAttempts, canonicalSignatures]

def name : Setting → String
  | algorithm => "algorithm"
  | validation => "validation"
  | sideChannel => "side_channel"
  | windowSize => "window_size"
  | cacheCapacity => "lookup_table_capacity"
  | maxAttempts => "max_signing_attempts"
  | canonicalSignatures => "canonical_signatures"

abbrev Value : Setting → Type
  | algorithm => Algorithm
  | validation => ValidationLevel
  | sideChannel => Protection
  | windowSize | cacheCapacity => Option UInt64
  | maxAttempts => UInt32
  | canonicalSignatures => Bool

def get : (f : Setting) → Config → f.Value
  | algorithm, c => c.algorithm
  | validation, c => c.validation
  | sideChannel, c => c.sideChannel
  | windowSize, c => c.windowSize
  | cacheCapacity, c => c.cacheCapacity
  | maxAttempts, c => c.maxAttempts
  | canonicalSignatures, c => c.canonicalSignatures

def set : (f : Setting) → f.Value → Config → Config
  | algorithm, v, c => { c with algorithm := v }
  | validation, v, c => { c with validation := v }
  | sideChannel, v, c => { c with sideChannel := v }
  | windowSize, v, c => { c with windowSize := v }
  | cacheCapacity, v, c => { c with cacheCapacity := v }
  | maxAttempts, v, c => { c with maxAttempts := v }
  | canonicalSignatures, v, c => { c with canonicalSignatures := v }

/-- The value of a setting as it is written. -/
def write : (f : Setting) → f.Value → String
  | algorithm, v => Named.toJson v
  | validation, v => Named.toJson v
  | sideChannel, v => Named.toJson v
  | windowSize, v | cacheCapacity, v => writeOption (fun n => toString n.toNat) v
  | maxAttempts, v => toString v.toNat
  | canonicalSignatures, v => writeBool v

def read : (f : Setting) → Json → Option f.Value
  | algorithm | validation | sideChannel => Named.ofJson?
  | windowSize | cacheCapacity => toOption? toUInt64?
  | maxAttempts => toUInt32?
  | canonicalSignatures => toBool?

variable (f : Setting)

/-- The configuration with a given value for every setting. -/
def collect (v : (f : Setting) → f.Value) : Config :=
  ⟨v algorithm, v validation, v sideChannel, v windowSize, v cacheCapacity, v maxAttempts,
    v canonicalSignatures⟩

lemma get_collect (v : (f : Setting) → f.Value) : f.get (collect v) = v f := by
  cases f <;> rfl

lemma get_set_self (v : f.Value) (c : Config) : f.get (f.set v c) = v := by
  cases f <;> rfl

lemma get_set_of_ne {f g : Setting} (h : g ≠ f) (v : f.Value) (c : Config) :
    g.get (f.set v c) = g.get c := by
  cases f <;> cases g <;> first | rfl | exact absurd rfl h

lemma mem_all : f ∈ all := by
  cases f <;> simp [all]

lemma name_injective : Function.Injective name := by
  have hall : ∀ f ∈ all, ∀ g ∈ all, f.name = g.name → f = g := by decide
  exact fun f g => hall f f.mem_all g g.mem_all

/-- Each setting round-trips in its own form. -/
lemma roundTrips : RoundTrips f.write f.read := by
  cases f with
  | algorithm => exact Named.roundTrips (by intro a; cases a <;> rfl)
  | validation => exact Named.roundTrips (by intro a; cases a <;> rfl)
  | sideChannel => exact Named.roundTrips (by intro a; cases a <;> rfl)
  | windowSize => exact roundTrips_toUInt64.option rfl
  | cacheCapacity => exact roundTrips_toUInt64.option rfl
  | maxAttempts => exact roundTrips_toUInt32
  | canonicalSignatures => exact roundTrips_bool

end Setting

open Setting

lemma ext_get {c d : Config} (h : ∀ f : Setting, f.get c = f.get d) : c = d := by
  cases c
  cases d
  rw [Config.mk.injEq]
  exact ⟨h .algorithm, h .validation, h .sideChannel, h .windowSize, h .cacheCapacity,
    h .maxAttempts, h .canonicalSignatures⟩

lemma set?_name (c : Config) (f : Setting) (j : Json) :
    c.set? f.name j = (f.read j).map fun v => f.set v c := by
  cases f <;> rfl

lemma mem_names_iff {text : String} : text ∈ names ↔ ∃ f : Setting, f.name = text := by
  rw [show names = all.map name from rfl, List.mem_map]
  exact ⟨fun ⟨f, _, h⟩ => ⟨f, h⟩, fun ⟨f, h⟩ => ⟨f, f.mem_all, h⟩⟩

/-- The object of some settings of a configuration. -/
def writeSettings (c : Config) (fs : List Setting) : String :=
  writeObject (fs.map fun f => (f.name, f.write (f.get c)))

lemma toJson_eq (c : Config) : c.toJson = c.writeSettings all := rfl

/-! ### Objects -/

/-- A configuration has the values that the members of an object give to the settings they name,
and the values of another one for all other settings. -/
def Updates (c : Config) (members : List (String × Json)) (d : Config) : Prop :=
  ∀ f : Setting, match members.lookup f.name with
    | none => f.get d = f.get c
    | some j => f.read j = some (f.get d)

variable {members : List (String × Json)} {c d : Config}

lemma lookup_cons_of_ne {text : String} {f : Setting} (h : f.name ≠ text) (j : Json) :
    ((text, j) :: members).lookup f.name = members.lookup f.name := by
  rw [List.lookup_cons, beq_false_of_ne h]

lemma updates_nil_iff : Updates c [] d ↔ c = d :=
  ⟨fun h => ext_get fun f => (h f).symm, fun h _ => h ▸ rfl⟩

/-- A member that names no setting is passed over. -/
lemma updates_cons_of_unknown {text : String} (h : text ∉ names) (j : Json) :
    Updates c ((text, j) :: members) d ↔ Updates c members d := by
  refine forall_congr' fun f => ?_
  rw [lookup_cons_of_ne (fun hf => h (mem_names_iff.mpr ⟨f, hf⟩))]

/-- A setting that is not named again can be changed first. -/
lemma updates_cons_iff {g : Setting} (h : members.lookup g.name = none) (j : Json) :
    Updates c ((g.name, j) :: members) d ↔
      ∃ v, g.read j = some v ∧ Updates (g.set v c) members d := by
  constructor
  · intro hd
    have hg := hd g
    rw [List.lookup_cons_self] at hg
    refine ⟨_, hg, fun f => ?_⟩
    by_cases hf : f = g
    · subst hf
      rw [h]
      exact (get_set_self f _ c).symm
    · have hrest := hd f
      rw [lookup_cons_of_ne (name_injective.ne hf)] at hrest
      rwa [get_set_of_ne hf]
  · rintro ⟨v, hv, hd⟩ f
    by_cases hf : f = g
    · subst hf
      have hf := hd f
      rw [h] at hf
      rw [List.lookup_cons_self]
      exact hv.trans (congrArg some (hf.trans (get_set_self f v c)).symm)
    · have hrest := hd f
      rw [get_set_of_ne hf] at hrest
      rwa [lookup_cons_of_ne (name_injective.ne hf)]

/-- The members that name a setting. -/
def known (members : List (String × Json)) : List (String × Json) :=
  members.filter fun m => names.contains m.1

lemma lookup_eq_none_of_notMem {f : Setting} (h : f.name ∉ (known members).map Prod.fst) :
    members.lookup f.name = none := by
  have hname : f.name ∈ names := mem_names_iff.mpr ⟨f, rfl⟩
  rw [List.lookup_eq_none_iff]
  intro m hm
  rw [bne_iff_ne]
  intro hf
  have hm' : m ∈ known members := List.mem_filter.mpr ⟨hm, by simpa [← hf] using hname⟩
  exact h (List.mem_map.mpr ⟨m, hm', hf.symm⟩)

/-- The settings are changed one after the other; since none is named twice, no change is lost. -/
lemma foldlM_set?_eq_some_iff (hnodup : ((known members).map Prod.fst).Nodup) :
    (known members).foldlM (fun c (name, value) => c.set? name value) c = some d ↔
      Updates c members d := by
  induction members generalizing c with
  | nil => exact Option.some_inj.trans updates_nil_iff.symm
  | cons m members ih =>
    obtain ⟨text, j⟩ := m
    by_cases htext : text ∈ names
    · have hknown : known ((text, j) :: members) = (text, j) :: known members :=
        List.filter_cons_of_pos (by simpa using htext)
      rw [hknown, List.map_cons, List.nodup_cons] at hnodup
      obtain ⟨g, rfl⟩ := mem_names_iff.mp htext
      rw [hknown, updates_cons_iff (lookup_eq_none_of_notMem hnodup.1)]
      change (c.set? g.name j).bind _ = _ ↔ _
      rw [set?_name]
      cases g.read j with
      | none => simp
      | some v => simpa using ih hnodup.2
    · have hknown : known ((text, j) :: members) = known members :=
        List.filter_cons_of_neg (by simpa using htext)
      rw [hknown] at hnodup ⊢
      rw [updates_cons_of_unknown htext, ih hnodup]

/-- The members of an object, if every name is a text. -/
lemma mapM_name_eq_some_iff {members : List (Option String × Json)}
    {named : List (String × Json)} :
    members.mapM (fun (name, value) => name.map (·, value)) = some named ↔
      members = named.map fun m => (some m.1, m.2) := by
  induction members generalizing named with
  | nil => cases named <;> simp
  | cons m members ih =>
    obtain ⟨name, value⟩ := m
    rw [List.mapM_cons]
    cases name with
    | none => cases named <;> simp
    | some text =>
      simp only [Option.map_some, Option.bind_eq_bind, Option.bind_some, Option.bind_eq_some_iff,
        ih]
      constructor
      · rintro ⟨rest, rfl, h⟩
        cases h
        rfl
      · intro h
        cases named with
        | nil => cases h
        | cons m named =>
          obtain ⟨hm, hrest⟩ := List.cons.inj h
          cases hm
          exact ⟨named, hrest, rfl⟩

lemma ofJson?_named_eq_some_iff {named : List (String × Json)} :
    ofJson? (.object (named.map fun m => (some m.1, m.2))) = some d ↔
      ((known named).map Prod.fst).Nodup ∧ Updates standard named d := by
  have hrecord : (Json.object (named.map fun m => (some m.1, m.2))).record? names =
      if ((known named).map Prod.fst).Nodup then some (known named) else none := by
    rw [record?, mapM_name_eq_some_iff.mpr rfl]
    rfl
  rw [ofJson?, hrecord]
  split
  · next hnodup => exact (foldlM_set?_eq_some_iff hnodup).trans (and_iff_right hnodup).symm
  · next hnodup => exact iff_of_false nofun fun h => hnodup h.1

/-- All that an object is read as. -/
lemma ofJson?_object_eq_some_iff {members : List (Option String × Json)} :
    ofJson? (.object members) = some d ↔ ∃ named : List (String × Json),
      members = named.map (fun m => (some m.1, m.2)) ∧
      ((known named).map Prod.fst).Nodup ∧ Updates standard named d := by
  constructor
  · intro h
    obtain ⟨_, hrecord, -⟩ := Option.bind_eq_some_iff.mp h
    obtain ⟨named, hnamed, -⟩ := Option.bind_eq_some_iff.mp hrecord
    obtain rfl := mapM_name_eq_some_iff.mp hnamed
    exact ⟨named, rfl, ofJson?_named_eq_some_iff.mp h⟩
  · rintro ⟨named, rfl, h⟩
    exact ofJson?_named_eq_some_iff.mpr h

lemma lookup_map_name (json : Setting → Json) (fs : List Setting) (f : Setting) :
    (fs.map fun f => (f.name, json f)).lookup f.name = if f ∈ fs then some (json f) else none := by
  induction fs with
  | nil => rfl
  | cons g fs ih =>
    by_cases hf : f = g
    · subst hf
      simp
    · rw [List.map_cons, lookup_cons_of_ne (name_injective.ne hf), ih]
      simp [hf]

/-- Any settings of a configuration, each of them once, in any order. -/
lemma parse_writeSettings (c : Config) {fs : List Setting} (hfs : fs.Nodup) (d : Config) :
    (Json.parse? (c.writeSettings fs)).bind ofJson? = some d ↔
      ∀ f, f.get d = if f ∈ fs then f.get c else f.get standard := by
  choose json hread hjson using fun f : Setting => f.roundTrips (f.get c)
  have hparse : Json.parse? (c.writeSettings fs) =
      some (.object ((fs.map fun f => (f.name, json f)).map fun m => (some m.1, m.2))) := by
    apply parse?_writeObject
    rw [List.map_map, List.forall₂_map_left_iff, List.forall₂_map_right_iff, List.forall₂_same]
    exact fun f _ => ⟨rfl, hread f⟩
  have hnodup : ((known (fs.map fun f => (f.name, json f))).map Prod.fst).Nodup := by
    refine (List.filter_sublist.map _).nodup ?_
    rw [List.map_map]
    exact hfs.map name_injective
  rw [hparse, Option.bind_some, ofJson?_named_eq_some_iff, and_iff_right hnodup]
  refine forall_congr' fun f => ?_
  rw [lookup_map_name]
  by_cases hf : f ∈ fs
  · rw [if_pos hf, if_pos hf]
    change f.read (json f) = _ ↔ _
    rw [hjson, Option.some_inj, eq_comm]
  · rw [if_neg hf, if_neg hf]

lemma parse_toJson (c : Config) : (Json.parse? c.toJson).bind ofJson? = some c := by
  have hall : all.Nodup := by decide
  rw [toJson_eq]
  exact (parse_writeSettings c hall c).mpr fun f => (if_pos f.mem_all).symm

end Config

/-! ### The formats -/

/-- **Serialized values round-trip.** Every configuration, signature and integer is read back from
its text. An object with any settings of a configuration, in any order, gives these and the default
values for all others. Of all objects those are read whose names are texts, of which none names a
setting again, and whose values are values of the settings they are given to; other members do not
count. Integers are read from strings, and from those that are hexadecimal text. -/
theorem serialization_round_trips :
    (∀ c : Config, (Json.parse? c.toJson).bind Config.ofJson? = some c) ∧
    (∀ g : Signature, (Json.parse? g.toJson).bind Signature.ofJson? = some g) ∧
    (∀ a : U256, (Json.parse? a.toJson).bind U256.ofJson? = some a) ∧
    (∀ (c : Config) (fs : List Config.Setting), fs.Nodup → ∃ d,
      (Json.parse? (c.writeSettings fs)).bind Config.ofJson? = some d ∧
        ∀ f, f.get d = if f ∈ fs then f.get c else f.get .standard) ∧
    (∀ members d, Config.ofJson? (.object members) = some d ↔
      ∃ named : List (String × Json), members = named.map (fun m => (some m.1, m.2)) ∧
        ((Config.known named).map Prod.fst).Nodup ∧ Config.Updates .standard named d) ∧
    (∀ j v, U256.ofJson? j = some v ↔
      ∃ text, j = .string (some text) ∧ U256.ofHex text = .ok v) ∧
    ∀ text, Json.parse? (quote text) = some (.string (some text)) := by
  refine ⟨Config.parse_toJson, Signature.parse_toJson, U256.roundTrips.parse, ?_,
    fun _ _ => Config.ofJson?_object_eq_some_iff, fun _ _ => U256.ofJson?_eq_some_iff,
    fun text => (readAs_quote text).parse?⟩
  intro c fs hfs
  refine ⟨Config.Setting.collect fun f => if f ∈ fs then f.get c else f.get .standard, ?_,
    fun f => f.get_collect _⟩
  exact (Config.parse_writeSettings c hfs _).mpr fun f => f.get_collect _

/-- The window that is null is none, while the window that is left out is the default one. -/
theorem serialization_round_trips_window :
    Json.writeObject [("window_size", "null")] = Config.minimal.writeSettings [.windowSize] ∧
    (∃ d, (Json.parse? (Config.minimal.writeSettings [.windowSize])).bind Config.ofJson? = some d ∧
      d.windowSize = none) ∧
    ∃ d, (Json.parse? (Config.minimal.writeSettings [])).bind Config.ofJson? = some d ∧
      d.windowSize = some 4 := by
  obtain ⟨-, -, -, hsettings, -⟩ := serialization_round_trips
  obtain ⟨d, hd, hget⟩ := hsettings .minimal [.windowSize] (by decide)
  obtain ⟨e, he, hget'⟩ := hsettings .minimal [] (by decide)
  exact ⟨rfl, ⟨d, hd, hget .windowSize⟩, e, he, hget' .windowSize⟩

end Secp256k1
