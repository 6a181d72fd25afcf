import Secp256k1.Proofs.Caches
import Secp256k1.Proofs.Countermeasures
import Secp256k1.Proofs.Encodings

/-!
What every point satisfies, wherever it comes from.

Points are made of coordinates, of bytes and of other points, directly or through the tables and
the caches that they are put into. Every way of making one keeps points well-formed, on the
curve or off it, so all that a program can get hold of is.
-/

namespace Secp256k1

open Engine Multiplication

/-! ### Affine operations -/

namespace Point

variable {p q r : Point}

lemma WellFormed.of_double (hp : p.WellFormed) (h : p.double = .ok r) : r.WellFormed := by
  obtain ⟨s, hs, hw, -⟩ := hp.double
  obtain rfl := Except.ok.inj (hs.symm.trans h)
  exact hw

lemma WellFormed.of_add (hp : p.WellFormed) (hq : q.WellFormed) (h : p.add q = .ok r) :
    r.WellFormed := by
  obtain ⟨s, hs, hw, -⟩ := hp.add hq
  obtain rfl := Except.ok.inj (hs.symm.trans h)
  exact hw

lemma WellFormed.of_sub (hp : p.WellFormed) (hq : q.WellFormed) (h : p.sub q = .ok r) :
    r.WellFormed :=
  hp.of_add hq.neg h

lemma wellFormed_of_ofSec1 {bytes : List UInt8} (h : ofSec1 bytes = .ok r) : r.WellFormed := by
  unfold ofSec1 at h
  obtain ⟨format, -, h⟩ := exists_of_bind_eq_ok h
  cases format with
  | identity =>
    obtain rfl := Except.ok.inj h
    exact wellFormed_infinity
  | uncompressed =>
    obtain ⟨⟨P, hP⟩, -⟩ := toUncompressed_of_ofUncompressed h
    exact hP.wellFormed
  | compressed =>
    obtain ⟨⟨P, hP⟩, -⟩ := toCompressed_of_ofCompressed h
    exact hP.wellFormed

end Point

/-! ### Tables -/

namespace OddMultiples

/-- The points of a table are well-formed. -/
structure WellFormed (t : OddMultiples) : Prop where
  base : t.base.WellFormed
  entry : ∀ p ∈ t.entries, p.WellFormed

variable {t : OddMultiples} {p r : Point} {n : ℕ}

lemma wellFormed_of_build (hp : p.WellFormed) (h : build p n = .ok t) : t.WellFormed := by
  obtain ⟨-, -, -, -, -, hbase, twice, further, htwice, hfurther, hentries, -⟩ := of_build h
  have hstep := hp.toAffine.of_double htwice
  refine ⟨hbase ▸ hp.toAffine, ?_⟩
  rw [hentries]
  refine List.forall_mem_cons.mpr ⟨hp.toAffine, ?_⟩
  exact forall_of_progression (fun _ _ hq h => hq.of_add hstep h) hp.toAffine hfurther

lemma WellFormed.of_select {d : Int16} (ht : t.WellFormed) (h : t.select d = .ok r) :
    r.WellFormed := by
  unfold select at h
  obtain ⟨_, -, h⟩ := exists_of_bind_eq_ok h
  split at h
  · cases h
  · next p hp =>
    have hp := ht.entry p (List.mem_of_getElem? hp)
    obtain rfl := Except.ok.inj h
    split
    · exact hp.neg
    · exact hp

end OddMultiples

/-! ### Multiples -/

namespace Multiplication

variable {κ : Type} [BitString κ] {k : κ} {p r : Point}

lemma wellFormed_of_doubleAndAddBits {i : ℕ} {acc : Point} (hp : p.WellFormed)
    (hacc : acc.WellFormed) (h : doubleAndAddBits k p i acc = .ok r) : r.WellFormed := by
  induction i generalizing acc with
  | zero =>
    obtain rfl := Except.ok.inj h
    exact hacc
  | succ i ih =>
    unfold doubleAndAddBits at h
    obtain ⟨twice, htwice, h⟩ := exists_of_bind_eq_ok h
    have htwice := hacc.of_double htwice
    dsimp only at h
    split at h
    · obtain ⟨sum, hsum, h⟩ := exists_of_bind_eq_ok h
      exact ih (htwice.of_add hp hsum) h
    · rw [pure_bind] at h
      exact ih htwice h

lemma wellFormed_of_doubleAndAdd (hp : p.WellFormed) (h : doubleAndAdd k p = .ok r) :
    r.WellFormed := by
  unfold doubleAndAdd at h
  split at h
  · obtain rfl := Except.ok.inj h
    exact Point.wellFormed_infinity
  · exact wellFormed_of_doubleAndAddBits hp.toAffine Point.wellFormed_infinity h

/-- The ladder keeps coordinates canonical, whatever becomes of `z` on the way. -/
lemma isCanonical_climb (k : κ) (i : ℕ) {r : Rungs} (hl : r.lower.IsCanonical)
    (hu : r.upper.IsCanonical) : (climb k i r).lower.IsCanonical := by
  induction i generalizing r with
  | zero => exact hl
  | succ i ih =>
    unfold climb
    cases BitString.bit k i
    · exact ih hl.double.1 (hl.add hu).1
    · exact ih (hu.add hl).1 hu.double.1

lemma wellFormed_of_montgomeryLadder (hp : p.WellFormed) (h : montgomeryLadder k p = .ok r) :
    r.WellFormed := by
  unfold montgomeryLadder at h
  split at h
  · obtain rfl := Except.ok.inj h
    exact Point.wellFormed_infinity
  · obtain rfl := Except.ok.inj h
    have hc := isCanonical_climb (r := ⟨.infinity, .ofPoint p⟩) k (BitString.width κ)
      JacobianPoint.isCanonical_infinity (JacobianPoint.ofPoint_spec hp).1
    exact hc.wellFormed_toPoint.toAffine

lemma wellFormed_of_evaluate {t : OddMultiples} {ds : List Int16} (ht : t.WellFormed)
    (h : evaluate t ds = .ok r) : r.WellFormed := by
  induction ds generalizing r with
  | nil =>
    obtain rfl := Except.ok.inj h
    exact Point.wellFormed_infinity
  | cons d ds ih =>
    unfold evaluate at h
    obtain ⟨sum, hsum, h⟩ := exists_of_bind_eq_ok h
    obtain ⟨twice, htwice, h⟩ := exists_of_bind_eq_ok h
    have htwice := (ih hsum).of_double htwice
    split at h
    · obtain rfl := Except.ok.inj h
      exact htwice
    · obtain ⟨m, hm, h⟩ := exists_of_bind_eq_ok h
      exact htwice.of_add (ht.of_select hm) h

lemma wellFormed_of_windowedNaf {table : Option OddMultiples} (hp : p.WellFormed)
    (htable : ∀ t ∈ table, t.WellFormed) (h : windowedNaf k p table = .ok r) : r.WellFormed := by
  unfold windowedNaf at h
  rcases table with _ | t
  · exact wellFormed_of_doubleAndAdd hp h
  dsimp only at h
  split at h
  · obtain rfl := Except.ok.inj h
    exact Point.wellFormed_infinity
  · obtain ⟨_, -, h⟩ := exists_of_bind_eq_ok h
    exact wellFormed_of_evaluate (htable t rfl) h

lemma wellFormed_of_multiply {algorithm : Algorithm} {table : Option OddMultiples}
    (hp : p.WellFormed) (htable : ∀ t ∈ table, t.WellFormed)
    (h : multiply algorithm k p table = .ok r) : r.WellFormed := by
  cases algorithm with
  | doubleAndAdd => exact wellFormed_of_doubleAndAdd hp h
  | montgomeryLadder => exact wellFormed_of_montgomeryLadder hp h
  | windowedNaf => exact wellFormed_of_windowedNaf hp htable h

lemma wellFormed_of_performBlinded {σ ω : Type} [RandomSource σ] {algorithm : Algorithm}
    {a : U256} {s : State σ ω} (hp : p.WellFormed)
    (h : ((performBlinded algorithm a p).run s).1 = .ok r) : r.WellFormed := by
  unfold performBlinded at h
  rw [run_bind, drawsBy_nonzeroWord] at h
  rcases hw : (nonzeroWordStep maskAttempts s.source).1 with e | w
  · rw [hw] at h
    cases h
  · rw [hw] at h
    dsimp only at h
    rw [run_report_bind, fst_run_perform] at h
    exact wellFormed_of_multiply hp (fun t ht => by cases ht) h

end Multiplication

/-! ### Coordinates -/

namespace FieldElement

variable {a r : FieldElement}

/-- What is checked against the prime is a residue. -/
lemma isCanonical_of_requireParameter {n : U256} {site why : String}
    (h : (do requireParameter (fieldModulus.contains n) site why; return mk n) = .ok r) :
    r.IsCanonical := by
  obtain ⟨u, hu, h⟩ := exists_of_bind_eq_ok h
  obtain rfl := Except.ok.inj h
  exact (Modulus.contains_iff _ _).mp (of_require_eq_ok hu)

lemma isCanonical_of_ofU256 {n : U256} (h : ofU256 n = .ok r) : r.IsCanonical :=
  isCanonical_of_requireParameter h

lemma isCanonical_of_ofBytes {bytes : List UInt8} (h : ofBytes bytes = .ok r) : r.IsCanonical :=
  isCanonical_of_requireParameter h

lemma isCanonical_of_ofHex {text : String} (h : ofHex text = .ok r) : r.IsCanonical := by
  unfold ofHex at h
  obtain ⟨n, -, h⟩ := exists_of_bind_eq_ok h
  exact isCanonical_of_ofU256 h

lemma isCanonical_of_invert (h : a.invert = .ok r) : r.IsCanonical := by
  unfold invert Modulus.invert at h
  dsimp only at h
  split at h
  · cases h
  · obtain rfl := Except.ok.inj h
    exact isCanonical_pow ⟨fieldModulus.reduce a.value⟩ _

lemma isCanonical_select {a b : FieldElement} (ha : a.IsCanonical) (hb : b.IsCanonical)
    (choice : Bool) : (select a b choice).IsCanonical := by
  cases choice
  · exact ha
  · exact hb

end FieldElement

/-! ### Provenance -/

/-- Points, the coordinates that they are made of, and what they are kept in. -/
inductive Object where
  | element (a : FieldElement)
  | point (p : Point)
  | table (t : OddMultiples)
  | cache (t : LookupTable)

open Object in
/-- What can be made by any number of calls, on whatever has been made before. The numbers, the
scalars, the bytes and the source of randomness may be any. -/
inductive Made : Object → Prop
  | zero : Made (element .zero)
  | one : Made (element .one)
  | ofWord (w : UInt64) : Made (element (.ofWord w))
  | reduce (n : U256) : Made (element (.reduce n))
  | ofU256 {n : U256} {r : FieldElement} (h : FieldElement.ofU256 n = .ok r) : Made (element r)
  | ofBytes {bytes : List UInt8} {r : FieldElement} (h : FieldElement.ofBytes bytes = .ok r) :
      Made (element r)
  | ofHex {text : String} {r : FieldElement} (h : FieldElement.ofHex text = .ok r) :
      Made (element r)
  | plus {a b : FieldElement} (ha : Made (element a)) (hb : Made (element b)) :
      Made (element (a + b))
  | minus {a b : FieldElement} (ha : Made (element a)) (hb : Made (element b)) :
      Made (element (a - b))
  | times {a b : FieldElement} (ha : Made (element a)) (hb : Made (element b)) :
      Made (element (a * b))
  | square {a : FieldElement} (ha : Made (element a)) : Made (element a.square)
  | twice {a : FieldElement} (ha : Made (element a)) : Made (element a.double)
  | opposite {a : FieldElement} (ha : Made (element a)) : Made (element (-a))
  | pow {a : FieldElement} (ha : Made (element a)) (e : U256) : Made (element (a.pow e))
  | invert {a r : FieldElement} (ha : Made (element a)) (h : a.invert = .ok r) : Made (element r)
  | invertOrZero {a : FieldElement} (ha : Made (element a)) : Made (element a.invertOrZero)
  | sqrt {a r : FieldElement} (ha : Made (element a)) (h : a.sqrt? = some r) : Made (element r)
  | choose {a b : FieldElement} (ha : Made (element a)) (hb : Made (element b)) (choice : Bool) :
      Made (element (.select a b choice))
  | x {p : Point} (hp : Made (point p)) : Made (element p.x)
  | y {p : Point} (hp : Made (point p)) : Made (element p.y)
  | z {p : Point} (hp : Made (point p)) : Made (element p.z)
  | fingerprint {p : Point} (hp : Made (point p)) : Made (element p.fingerprint)
  | infinity : Made (point .infinity)
  /-- The point need not be on the curve. -/
  | ofAffine {x y : FieldElement} (hx : Made (element x)) (hy : Made (element y)) :
      Made (point (.ofAffine x y))
  | ofAffineOnCurve {x y : FieldElement} {r : Point} (hx : Made (element x))
      (hy : Made (element y)) (h : Point.ofAffineOnCurve x y = .ok r) : Made (point r)
  | ofUncompressed {bytes : List UInt8} {r : Point} (h : Point.ofUncompressed bytes = .ok r) :
      Made (point r)
  | ofCompressed {bytes : List UInt8} {r : Point} (h : Point.ofCompressed bytes = .ok r) :
      Made (point r)
  | ofSec1 {bytes : List UInt8} {r : Point} (h : Point.ofSec1 bytes = .ok r) : Made (point r)
  | toAffine {p : Point} (hp : Made (point p)) : Made (point p.toAffine)
  | neg {p : Point} (hp : Made (point p)) : Made (point p.neg)
  | double {p r : Point} (hp : Made (point p)) (h : p.double = .ok r) : Made (point r)
  | add {p q r : Point} (hp : Made (point p)) (hq : Made (point q)) (h : p.add q = .ok r) :
      Made (point r)
  | sub {p q r : Point} (hp : Made (point p)) (hq : Made (point q)) (h : p.sub q = .ok r) :
      Made (point r)
  | perform {κ σ ω : Type} [BitString κ] {algorithm : Algorithm} {k : κ} {p r : Point}
      {t? : Option OddMultiples} {s : State σ ω} (hp : Made (point p))
      (ht : ∀ t ∈ t?, Made (table t)) (h : ((perform algorithm k p t?).run s).1 = .ok r) :
      Made (point r)
  | performBlinded {σ ω : Type} [RandomSource σ] {algorithm : Algorithm} {k : U256} {p r : Point}
      {s : State σ ω} (hp : Made (point p))
      (h : ((performBlinded algorithm k p).run s).1 = .ok r) : Made (point r)
  | randomize {σ ω : Type} [RandomSource σ] {p r : Point} {s : State σ ω} (hp : Made (point p))
      (h : (p.randomize.run s).1 = .ok r) : Made (point r)
  | build {p : Point} {window : ℕ} {t : OddMultiples} (hp : Made (point p))
      (h : OddMultiples.build p window = .ok t) : Made (table t)
  | base {t : OddMultiples} (ht : Made (table t)) : Made (point t.base)
  | entry {t : OddMultiples} {p : Point} (ht : Made (table t)) (h : p ∈ t.entries) :
      Made (point p)
  | select {t : OddMultiples} {d : Int16} {r : Point} (ht : Made (table t))
      (h : t.select d = .ok r) : Made (point r)
  | withCapacity {capacity : ℕ} {t : LookupTable} (h : LookupTable.withCapacity capacity = .ok t) :
      Made (cache t)
  | insert {t t' : LookupTable} {p : Point} {es : List Event} (ht : Made (cache t))
      (hp : Made (point p)) (h : t.insert p = .ok (t', es)) : Made (cache t')
  | lookup {t : LookupTable} {p : Point} (ht : Made (cache t)) (hp : Made (point p)) :
      Made (cache (t.lookup p).2)
  | found {t : LookupTable} {p r : Point} (ht : Made (cache t)) (hp : Made (point p))
      (h : (t.lookup p).1 = .ok r) : Made (point r)
  | clear {t : LookupTable} (ht : Made (cache t)) : Made (cache t.clear)

/-- What holds of everything that is made. -/
def Object.Sound : Object → Prop
  | element a => a.IsCanonical
  | point p => p.WellFormed
  | table t => t.WellFormed
  | cache t => t.Regular

open FieldElement in
/-- **Everything that is made is sound.** The induction is on the calls, and each case is what
one call keeps. -/
theorem Made.sound {o : Object} (h : Made o) : o.Sound := by
  induction h with
  | zero => exact isCanonical_zero
  | one => exact isCanonical_one
  | ofWord w => exact isCanonical_ofWord w
  | reduce n => exact isCanonical_reduce n
  | ofU256 h => exact isCanonical_of_ofU256 h
  | ofBytes h => exact isCanonical_of_ofBytes h
  | ofHex h => exact isCanonical_of_ofHex h
  | plus _ _ iha ihb => exact isCanonical_add iha ihb
  | minus _ _ iha ihb => exact isCanonical_sub iha ihb
  | times => exact isCanonical_mul _ _
  | square => exact isCanonical_square _
  | twice _ ih => exact isCanonical_double ih
  | opposite _ ih => exact isCanonical_neg ih
  | pow _ e => exact isCanonical_pow _ e
  | invert _ h => exact isCanonical_of_invert h
  | invertOrZero => exact isCanonical_invertOrZero _
  | sqrt _ h => exact (sqrt?_eq_some h).1
  | choose _ _ choice iha ihb => exact isCanonical_select iha ihb choice
  | x _ ih => exact ih.x_canonical
  | y _ ih => exact ih.y_canonical
  | z _ ih => exact ih.z_canonical
  | fingerprint _ ih => exact ih.fingerprint ▸ isCanonical_square _
  | infinity => exact Point.wellFormed_infinity
  | ofAffine _ _ ihx ihy => exact Point.wellFormed_ofAffine ihx ihy
  | ofAffineOnCurve _ _ h ihx ihy =>
    obtain ⟨rfl, -⟩ := Point.ofAffineOnCurve_eq_ok h
    exact Point.wellFormed_ofAffine ihx ihy
  | ofUncompressed h =>
    obtain ⟨⟨P, hP⟩, -⟩ := Point.toUncompressed_of_ofUncompressed h
    exact hP.wellFormed
  | ofCompressed h =>
    obtain ⟨⟨P, hP⟩, -⟩ := Point.toCompressed_of_ofCompressed h
    exact hP.wellFormed
  | ofSec1 h => exact Point.wellFormed_of_ofSec1 h
  | toAffine _ ih => exact ih.toAffine
  | neg _ ih => exact ih.neg
  | double _ h ih => exact ih.of_double h
  | add _ _ h ihp ihq => exact ihp.of_add ihq h
  | sub _ _ h ihp ihq => exact ihp.of_sub ihq h
  | perform _ _ h ihp iht =>
    rw [fst_run_perform] at h
    exact wellFormed_of_multiply ihp iht h
  | performBlinded _ h ih => exact wellFormed_of_performBlinded ih h
  | randomize _ h ih => exact (ih.equals_of_randomize h).1
  | build _ h ih => exact OddMultiples.wellFormed_of_build ih h
  | base _ ih => exact ih.base
  | entry _ h ih => exact ih.entry _ h
  | select _ h ih => exact ih.of_select h
  | withCapacity h =>
    have hempty := LookupTable.not_stores_of_withCapacity h
    exact ⟨fun q hq => absurd hq (hempty q), fun q hq => absurd hq (hempty q)⟩
  | insert _ _ h iht ihp => exact iht.insert ihp h
  | lookup _ _ iht _ => exact iht.of_stores fun q => (LookupTable.stores_lookup _ _ q).mp
  | found _ _ h iht _ => exact iht.wellFormed _ (LookupTable.stores_of_lookup h)
  | clear _ ih => exact ih.of_stores fun q hq => absurd hq (LookupTable.not_stores_clear _ q)

namespace Point

variable {p : Point}

/-- The fingerprint, as a number. -/
lemma WellFormed.fingerprint_eq (h : p.WellFormed) :
    p.fingerprint.value.toNat = (p.x.value.toNat + p.y.value.toNat) ^ 2 % fieldPrime := by
  have hc : (fingerprintOf p.x p.y).IsCanonical := FieldElement.isCanonical_square _
  have hz : (fingerprintOf p.x p.y).toZMod =
      (((p.x.value.toNat + p.y.value.toNat) ^ 2 : ℕ) : Fp) := by
    rw [fingerprintOf, FieldElement.toZMod_square,
      FieldElement.toZMod_add h.x_canonical h.y_canonical, Nat.cast_pow, Nat.cast_add]
    rfl
  rw [h.fingerprint, ← FieldElement.val_toZMod hc, hz, ZMod.val_natCast]

/-- **Every point that is made keeps to one representation**: residues for coordinates, all zero
for infinity, and otherwise a fingerprint of the coordinates and a scale that is 1 for affine
coordinates and not zero for Jacobian ones. -/
theorem representation_of_made (h : Made (.point p)) :
    (p.x.value.toNat < fieldPrime ∧ p.y.value.toNat < fieldPrime ∧
      p.z.value.toNat < fieldPrime ∧ p.fingerprint.value.toNat < fieldPrime) ∧
    (p.isInfinity = true → p.x = .zero ∧ p.y = .zero ∧ p.z = .zero ∧ p.system = .affine ∧
      p.fingerprint = .zero) ∧
    (p.isInfinity = false →
      p.fingerprint.value.toNat = (p.x.value.toNat + p.y.value.toNat) ^ 2 % fieldPrime ∧
        (p.system = .affine → p.z = .one) ∧ (p.system = .jacobian → p.z ≠ .zero)) := by
  have hp : p.WellFormed := h.sound
  refine ⟨⟨?_, ?_, ?_, ?_⟩, ?_, ?_⟩
  · exact (FieldElement.isCanonical_iff _).mp hp.x_canonical
  · exact (FieldElement.isCanonical_iff _).mp hp.y_canonical
  · exact (FieldElement.isCanonical_iff _).mp hp.z_canonical
  · rw [hp.fingerprint_eq]
    exact Nat.mod_lt _ prime_fieldPrime.pos
  · intro hi
    rw [hp.infinity ((isInfinity_iff p).mp hi)]
    exact ⟨rfl, rfl, rfl, rfl, rfl⟩
  · intro hi
    refine ⟨hp.fingerprint_eq, ?_, ?_⟩
    · intro hs
      refine hp.affine ?_
      rcases hf : p.form with _ | _ | _
      · rw [isInfinity, hf] at hi
        cases hi
      · rfl
      · rw [system, hf] at hs
        cases hs
    · intro hs
      refine hp.jacobian ?_
      rcases hf : p.form with _ | _ | _
      · rw [system, hf] at hs
        cases hs
      · rw [system, hf] at hs
        cases hs
      · rfl

lemma made_generator : Made (.point generator) := by
  have hx : Made (.element ⟨Parameters.generatorX⟩) :=
    .ofU256 (n := Parameters.generatorX) (by decide +kernel)
  have hy : Made (.element ⟨Parameters.generatorY⟩) :=
    .ofU256 (n := Parameters.generatorY) (by decide +kernel)
  exact .ofAffine hx hy

/-- The generator under the mask 2, as it comes out of a source that spells 2. -/
theorem representation_of_made_masked_generator :
    let p := generator.rescale (.ofWord 2)
    Made (.point p) ∧ p.system = .jacobian ∧ p.z ≠ .zero ∧
      p.fingerprint.value.toNat = (p.x.value.toNat + p.y.value.toNat) ^ 2 % fieldPrime := by
  have hmask : (generator.randomize.run
      (⟨⟨(Array.replicate 31 0).push 2, .zero, 0⟩, [], ()⟩ : State Tape Unit)).1 =
        .ok (generator.rescale (.ofWord 2)) := by decide +kernel
  have hmade := Made.randomize made_generator hmask
  obtain ⟨-, -, hfinite⟩ := representation_of_made hmade
  obtain ⟨hfingerprint, -, hscale⟩ := hfinite (by decide +kernel)
  exact ⟨hmade, by decide +kernel, hscale (by decide +kernel), hfingerprint⟩

end Point

end Secp256k1
