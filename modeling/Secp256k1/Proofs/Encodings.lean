import Secp256k1.Proofs.Compression
import Secp256k1.Proofs.GroupLaw
import Secp256k1.Proofs.Representations

/-!
The byte encodings of points, read back.

What a reader of one of the formats accepts is the encoding of the point that it gives, so a
point has one encoding in each format; and the encoding of a point of the curve is accepted. In
the compressed format this rests on a parity telling an ordinate from its opposite, which it
does because no ordinate is zero.
-/

namespace Secp256k1

open WeierstrassCurve.Affine

/-! ### Field elements -/

namespace FieldElement

variable {x : FieldElement} {bytes : List UInt8}

@[simp] lemma length_toBytes (x : FieldElement) : x.toBytes.toList.length = 32 := by simp

/-- Only the 32 bytes of a canonical element are read as it. -/
lemma eq_toBytes_of_ofBytes (hlen : bytes.length = 32) (h : ofBytes bytes = .ok x) :
    x.IsCanonical ∧ x.toBytes.toList = bytes := by
  unfold ofBytes at h
  obtain ⟨_, hc, h⟩ := exists_of_bind_eq_ok h
  obtain rfl := Except.ok.inj h
  exact ⟨(Modulus.contains_iff _ _).mp (of_require_eq_ok hc), U256.toBytes_ofBytes hlen⟩

end FieldElement

namespace Point

variable {p q : Point} {x y : FieldElement} {bytes : List UInt8}

lemma isZeroBytes_iff (bytes : List UInt8) :
    isZeroBytes bytes = true ↔ bytes = List.replicate bytes.length 0 := by
  simp [isZeroBytes, List.eq_replicate_iff]

/-! ### Compressed points -/

/-- The compressed form of a finite point is the parity of its ordinate and its abscissa. -/
lemma toCompressed_of_toAffine (h : p.toAffine = ofAffine x y) :
    p.toCompressed = parityTag y.isOdd :: x.toBytes.toList := by
  unfold toCompressed
  rw [h]
  rfl

lemma parityTag_ne_zero (odd : Bool) : parityTag odd ≠ 0 := by cases odd <;> decide

/-- What is accepted is the compressed form of infinity, or a tag and an abscissa. -/
lemma of_ofCompressed (h : ofCompressed bytes = .ok p) :
    bytes = List.replicate 33 0 ∧ p = .infinity ∨
      ∃ x odd, x.IsCanonical ∧ bytes = parityTag odd :: x.toBytes.toList ∧
        decompress x odd = .ok p := by
  rcases bytes with _ | ⟨tag, bytes⟩
  · cases h
  unfold ofCompressed at h
  obtain ⟨_, hlen, h⟩ := exists_of_bind_eq_ok h
  have hlen := beq_iff_eq.mp (of_require_eq_ok hlen)
  split at h
  · next hz =>
    refine .inl ⟨?_, (Except.ok.inj h).symm⟩
    rw [isZeroBytes_iff, hlen] at hz
    exact hz
  · obtain ⟨_, htag, h⟩ := exists_of_bind_eq_ok h
    obtain ⟨x, hx, h⟩ := exists_of_bind_eq_ok h
    have htag : tag = 2 ∨ tag = 3 := by simpa using of_require_eq_ok htag
    obtain ⟨hxc, hxb⟩ := FieldElement.eq_toBytes_of_ofBytes (Nat.succ.inj hlen) hx
    refine .inr ⟨x, tag == 3, hxc, ?_, h⟩
    rw [hxb]
    rcases htag with rfl | rfl <;> rfl

/-- **What is read as a compressed point** is the compressed form of a point of the curve. -/
theorem toCompressed_of_ofCompressed (h : ofCompressed bytes = .ok p) :
    (∃ P, p.Denotes P) ∧ p.toCompressed = bytes := by
  rcases of_ofCompressed h with ⟨rfl, rfl⟩ | ⟨x, odd, hx, rfl, hp⟩
  · exact ⟨⟨0, denotes_infinity⟩, rfl⟩
  · rcases decompress_spec hx odd with ⟨q, y, hn, hq, hqP, hy⟩ | ⟨he, -⟩
    · obtain rfl : q = p := Except.ok.inj (hq.symm.trans hp)
      obtain ⟨x', y', hx', hy', e, hn', hP⟩ := hqP.exists_affine (Point.some_ne_zero hn)
      obtain ⟨hxx, hyy⟩ := Point.some.inj hP
      obtain rfl : x = x' := (FieldElement.toZMod_inj hx hx').mp hxx
      have hodd : y'.isOdd = odd := by
        rw [Bool.eq_iff_iff, FieldElement.isOdd_iff hy', ← hyy, hy]
      exact ⟨⟨_, hqP⟩, by rw [toCompressed_of_toAffine e, hodd]⟩
    · rw [he] at hp
      cases hp

/-- **The compressed form of a point of the curve is read as the point.** -/
theorem computes_ofCompressed {P : CurvePoint} (h : p.Denotes P) :
    Computes (ofCompressed p.toCompressed) P := by
  by_cases h0 : P = 0
  · obtain rfl := h0
    rw [h.eq_infinity]
    exact ⟨.infinity, rfl, denotes_infinity⟩
  · obtain ⟨x, y, hx, hy, e, hn, rfl⟩ := h.exists_affine h0
    rw [toCompressed_of_toAffine e]
    have hread : ofCompressed (parityTag y.isOdd :: x.toBytes.toList) = decompress x y.isOdd :=
      ofCompressed_parityTag ((FieldElement.isCanonical_iff x).mp hx) _
    rw [hread]
    rcases decompress_spec hx y.isOdd with ⟨q, y', hn', hq, hqP, hy'⟩ | ⟨-, hno⟩
    · -- the point that is found has the abscissa and the parity of `p`
      rw [FieldElement.isOdd_iff hy] at hy'
      obtain rfl := y_eq_of_parity hn' hn hy'
      exact ⟨q, hq, hqP⟩
    · exact absurd hn (hno _)

/-! ### Uncompressed points -/

/-- The uncompressed form of a finite point is both of its coordinates. -/
lemma toUncompressed_of_toAffine (h : p.toAffine = ofAffine x y) :
    p.toUncompressed = 4 :: (x.toBytes.toList ++ y.toBytes.toList) := by
  unfold toUncompressed
  rw [h]
  rfl

lemma ofAffineOnCurve_eq_ok (h : ofAffineOnCurve x y = .ok p) :
    p = ofAffine x y ∧ p.isOnCurve = true := by
  unfold ofAffineOnCurve at h
  obtain ⟨_, hc, h⟩ := exists_of_bind_eq_ok h
  obtain rfl := Except.ok.inj h
  exact ⟨rfl, of_require_eq_ok hc⟩

/-- What is accepted is the uncompressed form of infinity, or both coordinates of a point. -/
lemma of_ofUncompressed (h : ofUncompressed bytes = .ok p) :
    bytes = List.replicate 65 0 ∧ p = .infinity ∨
      ∃ x y, bytes = 4 :: (x.toBytes.toList ++ y.toBytes.toList) ∧ x.IsCanonical ∧
        y.IsCanonical ∧ ofAffineOnCurve x y = .ok p := by
  rcases bytes with _ | ⟨tag, bytes⟩
  · cases h
  unfold ofUncompressed at h
  obtain ⟨_, hlen, h⟩ := exists_of_bind_eq_ok h
  have hlen := beq_iff_eq.mp (of_require_eq_ok hlen)
  split at h
  · next hz =>
    refine .inl ⟨?_, (Except.ok.inj h).symm⟩
    rw [isZeroBytes_iff, hlen] at hz
    exact hz
  · obtain ⟨_, htag, h⟩ := exists_of_bind_eq_ok h
    obtain ⟨x, hx, h⟩ := exists_of_bind_eq_ok h
    obtain ⟨y, hy, h⟩ := exists_of_bind_eq_ok h
    have htag : tag = 4 := by simpa using of_require_eq_ok htag
    have hlen : bytes.length = 64 := Nat.succ.inj hlen
    have hsize : Parameters.fieldElementSize = 32 := rfl
    rw [List.drop_one, List.tail_cons] at hx hy
    obtain ⟨hxc, hxb⟩ := FieldElement.eq_toBytes_of_ofBytes (by simp [hlen, hsize]) hx
    obtain ⟨hyc, hyb⟩ := FieldElement.eq_toBytes_of_ofBytes (by simp [hlen, hsize]) hy
    refine .inr ⟨x, y, ?_, hxc, hyc, h⟩
    rw [hxb, hyb, List.take_append_drop, htag]

/-- **What is read as an uncompressed point** is the uncompressed form of a point of the
curve. -/
theorem toUncompressed_of_ofUncompressed (h : ofUncompressed bytes = .ok p) :
    (∃ P, p.Denotes P) ∧ p.toUncompressed = bytes := by
  rcases of_ofUncompressed h with ⟨rfl, rfl⟩ | ⟨x, y, rfl, hx, hy, hp⟩
  · exact ⟨⟨0, denotes_infinity⟩, rfl⟩
  · obtain ⟨rfl, hc⟩ := ofAffineOnCurve_eq_ok hp
    exact ⟨(isOnCurve_iff (wellFormed_ofAffine hx hy)).mp hc, toUncompressed_of_toAffine rfl⟩

lemma ofUncompressed_cons {xs ys : List UInt8} (hxs : xs.length = 32) (hys : ys.length = 32) :
    ofUncompressed (4 :: (xs ++ ys)) =
      FieldElement.ofBytes xs >>= fun x => FieldElement.ofBytes ys >>= fun y =>
        ofAffineOnCurve x y := by
  have hlen : ((4 :: (xs ++ ys)).length == Parameters.uncompressedSize) = true := by
    rw [List.length_cons, List.length_append, hxs, hys]
    rfl
  have hsize : Parameters.fieldElementSize = xs.length := hxs.symm
  unfold ofUncompressed requireLength requireParameter require
  rw [hlen, isZeroBytes_cons (by decide), List.drop_one, List.tail_cons, hsize]
  dsimp only
  rw [List.take_left, List.drop_left]
  rfl

/-- **The uncompressed form of a point of the curve is read as the point.** -/
theorem computes_ofUncompressed {P : CurvePoint} (h : p.Denotes P) :
    Computes (ofUncompressed p.toUncompressed) P := by
  by_cases h0 : P = 0
  · obtain rfl := h0
    rw [h.eq_infinity]
    exact ⟨.infinity, rfl, denotes_infinity⟩
  · obtain ⟨x, y, hx, hy, e, hn, rfl⟩ := h.exists_affine h0
    have hxy := denotes_ofAffine hx hy hn
    rw [toUncompressed_of_toAffine e, ofUncompressed_cons x.length_toBytes y.length_toBytes,
      FieldElement.ofBytes_toBytes hx, FieldElement.ofBytes_toBytes hy]
    refine ⟨ofAffine x y, ?_, hxy⟩
    unfold ofAffineOnCurve requireOnCurve require
    simp only [bind, Except.bind, hxy.isOnCurve, if_true]
    rfl

/-! ### Either format -/

lemma ofSec1_compressed (odd : Bool) {xs : List UInt8} (hxs : xs.length = 32) :
    ofSec1 (parityTag odd :: xs) = ofCompressed (parityTag odd :: xs) := by
  have hlen : ((parityTag odd :: xs).length == Parameters.compressedSize) = true := by
    rw [List.length_cons, hxs]
    rfl
  unfold ofSec1 detectFormat requireLength require
  rw [hlen]
  dsimp only
  rw [isZeroBytes_cons (parityTag_ne_zero odd)]
  cases odd <;> rfl

lemma ofSec1_uncompressed {xs : List UInt8} (hxs : xs.length = 64) :
    ofSec1 (4 :: xs) = ofUncompressed (4 :: xs) := by
  have hlen : ((4 :: xs).length == Parameters.uncompressedSize) = true := by
    rw [List.length_cons, hxs]
    rfl
  unfold ofSec1 detectFormat requireLength require
  rw [hlen]
  dsimp only
  rw [isZeroBytes_cons (by decide)]
  rfl

/-- Both encodings of a point have a format that is told from their bytes. -/
lemma ofSec1_encoded (hp : p.WellFormed) : ofSec1 p.toCompressed = ofCompressed p.toCompressed ∧
    ofSec1 p.toUncompressed = ofUncompressed p.toUncompressed := by
  rcases hp.toAffine_cases with rfl | ⟨-, x, y, -, -, e⟩
  · exact ⟨rfl, rfl⟩
  · rw [toCompressed_of_toAffine e, toUncompressed_of_toAffine e]
    exact ⟨ofSec1_compressed _ x.length_toBytes, ofSec1_uncompressed (by simp)⟩

/-! ### Writing and reading -/

/-- A writer and a reader of points are inverse to each other. -/
structure Inverse (write : Point → List UInt8) (read : List UInt8 → Except Error Point) :
    Prop where
  /-- A point of the curve is read from what is written of it. -/
  read_write : ∀ p : Point, p.WellFormed → p.isOnCurve = true → Same (read (write p)) (.ok p)
  /-- What is read is what is written of the point. -/
  write_read : ∀ bytes p, read bytes = .ok p → write p = bytes
  /-- A point has no other encoding. -/
  unique : ∀ bytes bytes' p p', read bytes = .ok p → read bytes' = .ok p' → p.equals p' = true →
    bytes = bytes'

/-- One inverse is enough if the other one holds of denotations. -/
lemma inverse_of_computes {write : Point → List UInt8} {read : List UInt8 → Except Error Point}
    (hread : ∀ {p : Point} {P : CurvePoint}, p.Denotes P → Computes (read (write p)) P)
    (hwrite : ∀ {bytes : List UInt8} {p : Point}, read bytes = .ok p →
      (∃ P, p.Denotes P) ∧ write p = bytes)
    (hsame : ∀ {p q : Point}, Interchangeable p q → write p = write q) : Inverse write read := by
  constructor
  case read_write =>
    intro p hp hc
    obtain ⟨P, hP⟩ := (isOnCurve_iff hp).mp hc
    exact (hread hP).same hP.computes
  case write_read => exact fun bytes p h => (hwrite h).2
  case unique =>
    intro bytes bytes' p p' h h' heq
    obtain ⟨⟨P, hP⟩, hb⟩ := hwrite h
    obtain ⟨⟨P', hP'⟩, hb'⟩ := hwrite h'
    rw [← hb, ← hb', hsame (interchangeable_of_equals hP.wellFormed hP'.wellFormed heq)]

/-- **The encodings of points and their readers are inverse to each other.** So each format of
a fixed length has one encoding of each point, and both are read by the reader of either. -/
theorem encodings_inverse :
    Inverse toCompressed ofCompressed ∧ Inverse toUncompressed ofUncompressed ∧
      ∀ p : Point, p.WellFormed → p.isOnCurve = true →
        Same (ofSec1 p.toCompressed) (.ok p) ∧ Same (ofSec1 p.toUncompressed) (.ok p) := by
  have hc : Inverse toCompressed ofCompressed :=
    inverse_of_computes computes_ofCompressed toCompressed_of_ofCompressed (·.toCompressed)
  have hu : Inverse toUncompressed ofUncompressed :=
    inverse_of_computes computes_ofUncompressed toUncompressed_of_ofUncompressed (·.toUncompressed)
  refine ⟨hc, hu, ?_⟩
  intro p hp hcurve
  rw [(ofSec1_encoded hp).1, (ofSec1_encoded hp).2]
  exact ⟨hc.read_write p hp hcurve, hu.read_write p hp hcurve⟩

/-- The generator under the mask 2. -/
theorem encodings_inverse_masked_generator :
    let p := generator.rescale (.ofWord 2)
    p.WellFormed ∧ p.isOnCurve = true ∧ Same (ofSec1 p.toCompressed) (.ok p) ∧
      Same (ofSec1 p.toUncompressed) (.ok p) ∧
      ∃ q, ofCompressed p.toCompressed = .ok q ∧ q.toCompressed = p.toCompressed := by
  have hm := FieldElement.isCanonical_ofWord 2
  have hp := denotes_generator.rescale hm ((isZero_eq_false_iff hm).mp (by decide))
  obtain ⟨hcompressed, -, heither⟩ := encodings_inverse
  obtain ⟨hsame, hsame'⟩ := heither _ hp.wellFormed hp.isOnCurve
  obtain ⟨q, -, hq, -, -⟩ := hcompressed.read_write _ hp.wellFormed hp.isOnCurve
  exact ⟨hp.wellFormed, hp.isOnCurve, hsame, hsame', q, hq, hcompressed.write_read _ q hq⟩

end Point

end Secp256k1
