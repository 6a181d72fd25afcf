import Secp256k1.Proofs.Encodings

/-!
The grammar of encoded points, and what is wrong with every other byte string.

The grammar says which strings stand for which points, and what each of the others is refused
with, by the numbers that the bytes spell and by the equation of the curve. It mentions neither
the order in which a string is checked nor how a root is found. Each string has exactly one
outcome, and it is the one of the reader.
-/

namespace Secp256k1

/-- The bytes of a field element: 32 of them, for a number below the prime. -/
structure Spells (bytes : List UInt8) (x : FieldElement) : Prop where
  length : bytes.length = 32
  below : bigEndian bytes < fieldPrime
  value : x.value.toNat = bigEndian bytes

namespace Spells

variable {bytes : List UInt8} {x : FieldElement}

lemma isCanonical (h : Spells bytes x) : x.IsCanonical := by
  rw [FieldElement.isCanonical_iff, h.value]
  exact h.below

lemma ofBytes (hlen : bytes.length = 32) (hlt : bigEndian bytes < fieldPrime) :
    Spells bytes ⟨U256.ofBytes bytes⟩ :=
  ⟨hlen, hlt, U256.toNat_ofBytes hlen.le⟩

lemma toBytes (hx : x.IsCanonical) : Spells x.toBytes.toList x := by
  have hvalue : x.value.toNat = bigEndian x.toBytes.toList := x.value.bigEndian_toBytes.symm
  exact ⟨x.length_toBytes, hvalue ▸ (FieldElement.isCanonical_iff x).mp hx, hvalue⟩

/-- The bytes of an element are those that are written of it. -/
lemma eq_toBytes (h : Spells bytes x) : bytes = x.toBytes.toList := by
  refine U256.bigEndian_inj ?_ ?_
  · rw [h.length, x.length_toBytes]
  · rw [← h.value, (toBytes h.isCanonical).value]

lemma ofBytes_eq_pure (h : Spells bytes x) : FieldElement.ofBytes bytes = pure x := by
  rw [h.eq_toBytes, FieldElement.ofBytes_toBytes h.isCanonical]
  rfl

end Spells

/-- What a coordinate from the prime on is refused with. -/
def notBelowPrime : Error :=
  .invalidParameter "FieldElement::from_bytes" "coordinate is not below the field prime"

lemma FieldElement.ofBytes_eq_error {bytes : List UInt8} (hlen : bytes.length = 32)
    (hle : fieldPrime ≤ bigEndian bytes) : ofBytes bytes = .error notBelowPrime := by
  have hc : fieldModulus.contains (U256.ofBytes bytes) = false := by
    rwa [← Bool.not_eq_true, Modulus.contains_iff, toNat_fieldModulus,
      U256.toNat_ofBytes hlen.le, not_lt]
  unfold ofBytes requireParameter require
  simp only [hc, Bool.false_eq_true, if_false]
  rfl

namespace Point

/-- The length that a tag asks for. -/
def sizeOfTag? (tag : UInt8) : Option ℕ :=
  if tag = 4 then some 65 else if tag = 2 ∨ tag = 3 then some 33 else none

/-- What a byte string stands for, or what it is refused with. -/
inductive Reading : List UInt8 → Except Error Point → Prop
  /-- Zero bytes of any positive number are infinity. -/
  | infinity (n : ℕ) : Reading (List.replicate (n + 1) 0) (.ok .infinity)
  /-- The tag 4 and the coordinates of a point of the curve. -/
  | uncompressed {xs ys : List UInt8} {x y : FieldElement} (hx : Spells xs x)
      (hy : Spells ys y) (hcurve : y.toZMod ^ 2 = x.toZMod ^ 3 + 7) :
      Reading (4 :: (xs ++ ys)) (.ok (ofAffine x y))
  /-- The tag 2 or 3, by the parity of the ordinate, and the abscissa. -/
  | compressed {xs : List UInt8} {odd : Bool} {x y : FieldElement} (hx : Spells xs x)
      (hy : y.IsCanonical) (hcurve : y.toZMod ^ 2 = x.toZMod ^ 3 + 7)
      (hodd : y.value.toNat % 2 = 1 ↔ odd = true) :
      Reading (parityTag odd :: xs) (.ok (ofAffine x y))
  | empty : Reading [] (.error (.invalidParameter "CurvePoint" "empty point encoding"))
  | unknownTag {tag : UInt8} {bytes : List UInt8} (htag : sizeOfTag? tag = none)
      (hzero : ∃ b ∈ tag :: bytes, b ≠ 0) :
      Reading (tag :: bytes) (.error (.invalidParameter "CurvePoint" "unknown point prefix"))
  | wrongLength {tag : UInt8} {bytes : List UInt8} {size : ℕ}
      (htag : sizeOfTag? tag = some size) (hlen : (tag :: bytes).length ≠ size) :
      Reading (tag :: bytes) (.error (.invalidLength "CurvePoint" size (tag :: bytes).length))
  | coordinateBeyond {xs ys : List UInt8} (hxs : xs.length = 32) (hys : ys.length = 32)
      (hle : fieldPrime ≤ bigEndian xs ∨ fieldPrime ≤ bigEndian ys) :
      Reading (4 :: (xs ++ ys)) (.error notBelowPrime)
  | abscissaBeyond {xs : List UInt8} {odd : Bool} (hxs : xs.length = 32)
      (hle : fieldPrime ≤ bigEndian xs) : Reading (parityTag odd :: xs) (.error notBelowPrime)
  | offCurve {xs ys : List UInt8} {x y : FieldElement} (hx : Spells xs x) (hy : Spells ys y)
      (hcurve : y.toZMod ^ 2 ≠ x.toZMod ^ 3 + 7) :
      Reading (4 :: (xs ++ ys)) (.error (.pointNotOnCurve "CurvePoint::from_affine"))
  /-- No point of the curve has the abscissa. -/
  | noOrdinate {xs : List UInt8} {odd : Bool} {x : FieldElement} (hx : Spells xs x)
      (hsq : ¬IsSquare (x.toZMod ^ 3 + 7)) :
      Reading (parityTag odd :: xs) (.error (.pointNotOnCurve "CurvePoint::from_compressed"))

variable {x y : FieldElement} {bytes : List UInt8} {out : Except Error Point}

/-! ### Every byte string has an outcome -/

lemma sizeOfTag?_eq_some {tag : UInt8} {size : ℕ} (h : sizeOfTag? tag = some size) :
    tag = 4 ∧ size = 65 ∨ (∃ odd, tag = parityTag odd) ∧ size = 33 := by
  unfold sizeOfTag? at h
  split_ifs at h with h4 h23
  · exact .inl ⟨h4, (Option.some.inj h).symm⟩
  · refine .inr ⟨?_, (Option.some.inj h).symm⟩
    rcases h23 with rfl | rfl
    · exact ⟨false, rfl⟩
    · exact ⟨true, rfl⟩

/-- A square is the square of a residue of either parity. -/
lemma exists_ordinate (h : IsSquare (x.toZMod ^ 3 + 7)) (odd : Bool) :
    ∃ y : FieldElement, y.IsCanonical ∧ y.toZMod ^ 2 = x.toZMod ^ 3 + 7 ∧
      (y.value.toNat % 2 = 1 ↔ odd = true) := by
  rcases hs : (curveRhs x).sqrt? with _ | y
  · rw [FieldElement.sqrt?_eq_none_iff (isCanonical_curveRhs x), toZMod_curveRhs] at hs
    exact absurd h hs
  obtain ⟨hy, hsq⟩ := FieldElement.sqrt?_eq_some hs
  have h0 := y_ne_zero (nonsingular_of_sq hsq)
  rw [toZMod_curveRhs] at hsq
  by_cases hodd : y.value.toNat % 2 = 1 ↔ odd = true
  · exact ⟨y, hy, hsq, hodd⟩
  · have hny := FieldElement.isCanonical_neg hy
    refine ⟨-y, hny, by rw [FieldElement.toZMod_neg hy, neg_sq, hsq], ?_⟩
    rw [← FieldElement.val_toZMod hny, FieldElement.toZMod_neg hy, val_neg_odd_iff h0,
      FieldElement.val_toZMod hy]
    exact not_iff.mp fun h => hodd h

lemma exists_reading_uncompressed {xs ys : List UInt8} (hxs : xs.length = 32)
    (hys : ys.length = 32) : ∃ out, Reading (4 :: (xs ++ ys)) out := by
  by_cases hle : fieldPrime ≤ bigEndian xs ∨ fieldPrime ≤ bigEndian ys
  · exact ⟨_, .coordinateBeyond hxs hys hle⟩
  · rw [not_or, not_le, not_le] at hle
    have hx := Spells.ofBytes hxs hle.1
    have hy := Spells.ofBytes hys hle.2
    by_cases hcurve : (⟨U256.ofBytes ys⟩ : FieldElement).toZMod ^ 2 =
        (⟨U256.ofBytes xs⟩ : FieldElement).toZMod ^ 3 + 7
    · exact ⟨_, .uncompressed hx hy hcurve⟩
    · exact ⟨_, .offCurve hx hy hcurve⟩

lemma exists_reading_compressed {xs : List UInt8} (hxs : xs.length = 32) (odd : Bool) :
    ∃ out, Reading (parityTag odd :: xs) out := by
  by_cases hle : fieldPrime ≤ bigEndian xs
  · exact ⟨_, .abscissaBeyond hxs hle⟩
  · have hx := Spells.ofBytes hxs (not_le.mp hle)
    by_cases hsq : IsSquare ((⟨U256.ofBytes xs⟩ : FieldElement).toZMod ^ 3 + 7)
    · obtain ⟨y, hy, hcurve, hodd⟩ := exists_ordinate hsq odd
      exact ⟨_, .compressed hx hy hcurve hodd⟩
    · exact ⟨_, .noOrdinate hx hsq⟩

/-- The grammar leaves no string out. -/
theorem exists_reading (bytes : List UInt8) : ∃ out, Reading bytes out := by
  rcases bytes with _ | ⟨tag, bytes⟩
  · exact ⟨_, .empty⟩
  rcases htag : sizeOfTag? tag with _ | size
  · by_cases hzero : ∃ b ∈ tag :: bytes, b ≠ 0
    · exact ⟨_, .unknownTag htag hzero⟩
    · push Not at hzero
      rw [List.eq_replicate_of_mem hzero]
      exact ⟨_, .infinity bytes.length⟩
  by_cases hlen : (tag :: bytes).length = size
  · rw [List.length_cons] at hlen
    rcases sizeOfTag?_eq_some htag with ⟨rfl, rfl⟩ | ⟨⟨odd, rfl⟩, rfl⟩
    · rw [← List.take_append_drop 32 bytes]
      exact exists_reading_uncompressed (by simp; omega) (by simp; omega)
    · exact exists_reading_compressed (by omega) odd
  · exact ⟨_, .wrongLength htag hlen⟩

/-! ### The outcome is that of the reader -/

lemma isOnCurve_ofAffine_iff (x y : FieldElement) :
    (ofAffine x y).isOnCurve = true ↔ y.toZMod ^ 2 = x.toZMod ^ 3 + 7 := by
  simp [isOnCurve, isInfinity, ofAffine, toAffine, square_eq_curveRhs_iff]

lemma ofAffineOnCurve_of_sq (h : y.toZMod ^ 2 = x.toZMod ^ 3 + 7) :
    ofAffineOnCurve x y = .ok (ofAffine x y) := by
  unfold ofAffineOnCurve requireOnCurve require
  dsimp only
  rw [if_pos ((isOnCurve_ofAffine_iff x y).mpr h)]
  rfl

lemma ofAffineOnCurve_of_sq_ne (h : y.toZMod ^ 2 ≠ x.toZMod ^ 3 + 7) :
    ofAffineOnCurve x y = .error (.pointNotOnCurve "CurvePoint::from_affine") := by
  unfold ofAffineOnCurve requireOnCurve require
  dsimp only
  rw [if_neg ((isOnCurve_ofAffine_iff x y).not.mpr h)]
  rfl

lemma decompress_eq_ok {p : Point} {odd : Bool} (h : decompress x odd = .ok p) :
    p.system = .affine := by
  unfold decompress at h
  rcases hs : (curveRhs x).sqrt? with _ | y
  · rw [hs] at h
    cases h
  · rw [hs] at h
    obtain rfl := Except.ok.inj h
    rfl

/-- Decompression finds the ordinate of the parity, whichever root it comes across. -/
lemma decompress_of_sq {odd : Bool} (hx : x.IsCanonical) (hy : y.IsCanonical)
    (hcurve : y.toZMod ^ 2 = x.toZMod ^ 3 + 7) (hodd : y.value.toNat % 2 = 1 ↔ odd = true) :
    decompress x odd = .ok (ofAffine x y) := by
  have hn := (nonsingular_iff_equation _ _).mpr hcurve
  rcases decompress_spec hx odd with ⟨p, y', hn', hp, hP, hy'⟩ | ⟨-, hno⟩
  · rw [← hodd, ← FieldElement.val_toZMod hy] at hy'
    obtain rfl := y_eq_of_parity hn' hn hy'
    rw [hp, hP.eq_of_affine (denotes_ofAffine hx hy hn') (decompress_eq_ok hp) rfl]
  · exact absurd hn (hno _)

lemma decompress_of_not_isSquare {odd : Bool} (hx : x.IsCanonical)
    (hsq : ¬IsSquare (x.toZMod ^ 3 + 7)) :
    decompress x odd = .error (.pointNotOnCurve "CurvePoint::from_compressed") := by
  rcases decompress_spec hx odd with ⟨-, y, hn, -, -, -⟩ | ⟨he, -⟩
  · rw [nonsingular_iff_equation, sq] at hn
    exact absurd ⟨y, hn.symm⟩ hsq
  · exact he

lemma ofSec1_coordinates {xs ys : List UInt8} (hxs : xs.length = 32) (hys : ys.length = 32) :
    ofSec1 (4 :: (xs ++ ys)) =
      FieldElement.ofBytes xs >>= fun x => FieldElement.ofBytes ys >>= fun y =>
        ofAffineOnCurve x y := by
  rw [ofSec1_uncompressed (by simp [hxs, hys]), ofUncompressed_cons hxs hys]

lemma ofSec1_abscissa {xs : List UInt8} (hxs : xs.length = 32) (odd : Bool) :
    ofSec1 (parityTag odd :: xs) = FieldElement.ofBytes xs >>= fun x => decompress x odd := by
  have htag : (parityTag odd == 2 || parityTag odd == 3) = true := by cases odd <;> decide
  have hodd : (parityTag odd == 3) = odd := by cases odd <;> decide
  rw [ofSec1_compressed odd hxs, ofCompressed_cons hxs htag, hodd]

lemma ofSec1_replicate (n : ℕ) : ofSec1 (List.replicate (n + 1) 0) = .ok .infinity := by
  have hzero : isZeroBytes (0 :: List.replicate n 0) = true := by
    rw [isZeroBytes_iff, List.length_cons, List.length_replicate, List.replicate_succ]
  unfold ofSec1 detectFormat
  rw [List.replicate_succ]
  dsimp only
  rw [hzero]
  rfl

lemma ofSec1_of_tag_none {tag : UInt8} (htag : sizeOfTag? tag = none)
    (hzero : ∃ b ∈ tag :: bytes, b ≠ 0) :
    ofSec1 (tag :: bytes) = .error (.invalidParameter "CurvePoint" "unknown point prefix") := by
  have hz : isZeroBytes (tag :: bytes) = false := by
    rw [isZeroBytes, List.all_eq_false]
    simpa using hzero
  unfold sizeOfTag? at htag
  split_ifs at htag with h4 h23
  have h23 : (tag == 2 || tag == 3) = false := by simpa using h23
  unfold ofSec1 detectFormat
  dsimp only
  rw [hz, beq_false_of_ne h4, h23]
  rfl

lemma ofSec1_of_length_ne {tag : UInt8} {size : ℕ} (htag : sizeOfTag? tag = some size)
    (hlen : (tag :: bytes).length ≠ size) :
    ofSec1 (tag :: bytes) = .error (.invalidLength "CurvePoint" size (tag :: bytes).length) := by
  rcases sizeOfTag?_eq_some htag with ⟨rfl, rfl⟩ | ⟨⟨odd, rfl⟩, rfl⟩
  · have hsize : ((4 :: bytes).length == Parameters.uncompressedSize) = false :=
      beq_false_of_ne hlen
    unfold ofSec1 detectFormat requireLength require
    dsimp only
    rw [isZeroBytes_cons (by decide), hsize]
    rfl
  · have hsize : ((parityTag odd :: bytes).length == Parameters.compressedSize) = false :=
      beq_false_of_ne hlen
    unfold ofSec1 detectFormat requireLength require
    dsimp only
    rw [isZeroBytes_cons (parityTag_ne_zero odd), hsize]
    cases odd <;> rfl

/-- What the grammar says is what is read. -/
theorem Reading.ofSec1_eq (h : Reading bytes out) : ofSec1 bytes = out := by
  cases h with
  | infinity n => exact ofSec1_replicate n
  | uncompressed hx hy hcurve =>
    rw [ofSec1_coordinates hx.length hy.length, hx.ofBytes_eq_pure, hy.ofBytes_eq_pure, pure_bind,
      pure_bind]
    exact ofAffineOnCurve_of_sq hcurve
  | compressed hx hy hcurve hodd =>
    rw [ofSec1_abscissa hx.length, hx.ofBytes_eq_pure, pure_bind]
    exact decompress_of_sq hx.isCanonical hy hcurve hodd
  | empty => rfl
  | unknownTag htag hzero => exact ofSec1_of_tag_none htag hzero
  | wrongLength htag hlen => exact ofSec1_of_length_ne htag hlen
  | @coordinateBeyond xs ys hxs hys hle =>
    rw [ofSec1_coordinates hxs hys]
    rcases Nat.lt_or_ge (bigEndian xs) fieldPrime with hlt | hle'
    · rw [(Spells.ofBytes hxs hlt).ofBytes_eq_pure, pure_bind,
        FieldElement.ofBytes_eq_error hys (hle.resolve_left (not_le.mpr hlt))]
      rfl
    · rw [FieldElement.ofBytes_eq_error hxs hle']
      rfl
  | abscissaBeyond hxs hle =>
    rw [ofSec1_abscissa hxs, FieldElement.ofBytes_eq_error hxs hle]
    rfl
  | offCurve hx hy hcurve =>
    rw [ofSec1_coordinates hx.length hy.length, hx.ofBytes_eq_pure, hy.ofBytes_eq_pure, pure_bind,
      pure_bind]
    exact ofAffineOnCurve_of_sq_ne hcurve
  | noOrdinate hx hsq =>
    rw [ofSec1_abscissa hx.length, hx.ofBytes_eq_pure, pure_bind]
    exact decompress_of_not_isSquare hx.isCanonical hsq

/-- What the grammar takes for a point is a point of the curve. -/
lemma Reading.isOnCurve {p : Point} (h : Reading bytes (.ok p)) :
    p.WellFormed ∧ p.isOnCurve = true := by
  cases h with
  | infinity n => exact ⟨wellFormed_infinity, rfl⟩
  | uncompressed hx hy hcurve =>
    exact ⟨wellFormed_ofAffine hx.isCanonical hy.isCanonical,
      (isOnCurve_ofAffine_iff _ _).mpr hcurve⟩
  | compressed hx hy hcurve hodd =>
    exact ⟨wellFormed_ofAffine hx.isCanonical hy, (isOnCurve_ofAffine_iff _ _).mpr hcurve⟩

/-- **Each byte string is read as the grammar says**: as the point that it stands for, which is
on the curve, or with the error for what is wrong with it. -/
theorem ofSec1_eq_iff_reading (bytes : List UInt8) :
    (∀ out, ofSec1 bytes = out ↔ Reading bytes out) ∧
      ∀ p, ofSec1 bytes = .ok p → p.WellFormed ∧ p.isOnCurve = true := by
  obtain ⟨out, hout⟩ := exists_reading bytes
  have hiff : ∀ out', ofSec1 bytes = out' ↔ Reading bytes out' := by
    intro out'
    refine ⟨?_, Reading.ofSec1_eq⟩
    rintro rfl
    rw [hout.ofSec1_eq]
    exact hout
  exact ⟨hiff, fun p hp => ((hiff _).mp hp).isOnCurve⟩

/-- The generator, and a string with a tag of no format. -/
theorem ofSec1_eq_iff_reading_generator :
    ofSec1 generator.toUncompressed = .ok generator ∧ generator.WellFormed ∧
      generator.isOnCurve = true ∧ Reading [5, 0] (ofSec1 [5, 0]) := by
  have hwf := denotes_generator.wellFormed
  have hcurve := (nonsingular_iff_equation _ _).mp nonsingular_generator
  have hread : Reading generator.toUncompressed (.ok generator) :=
    .uncompressed (.toBytes hwf.x_canonical) (.toBytes hwf.y_canonical) hcurve
  have hok := ((ofSec1_eq_iff_reading generator.toUncompressed).1 _).mpr hread
  obtain ⟨hwf, hon⟩ := (ofSec1_eq_iff_reading generator.toUncompressed).2 generator hok
  exact ⟨hok, hwf, hon, ((ofSec1_eq_iff_reading [5, 0]).1 _).mp rfl⟩

end Point

end Secp256k1
