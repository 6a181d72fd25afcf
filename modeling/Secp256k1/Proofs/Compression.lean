import Secp256k1.Point.Sec1
import Secp256k1.Proofs.Bytes
import Secp256k1.Proofs.Points

/-!
Points from an abscissa and a parity.
-/

namespace Secp256k1

/-- A canonical element is read from its bytes. -/
lemma FieldElement.ofBytes_toBytes {x : FieldElement} (hx : x.IsCanonical) :
    ofBytes x.toBytes.toList = .ok x := by
  have hc : fieldModulus.contains x.value = true := (Modulus.contains_iff _ _).mpr hx
  unfold ofBytes requireParameter require
  rw [toBytes, U256.ofBytes_toBytes]
  simp only [hc, if_true]
  rfl

namespace Point

open WeierstrassCurve.Affine

variable {x : FieldElement}

/-- A residue that is a square root of the right-hand side is an ordinate. -/
lemma nonsingular_of_sq {x y : FieldElement} (h : y.toZMod ^ 2 = (curveRhs x).toZMod) :
    (curve (7 : Fp)).Nonsingular x.toZMod y.toZMod := by
  rw [nonsingular_iff_equation, h, toZMod_curveRhs]

lemma decompress_of_some {y : FieldElement} (h : (curveRhs x).sqrt? = some y) (odd : Bool) :
    decompress x odd = .ok (ofAffine x (if y.isOdd == odd then y else -y)) := by
  unfold decompress
  rw [h, Option.elim_some]
  rfl

/-- **Decompression** finds the point with the abscissa and the parity, if there is a point with
the abscissa at all. -/
theorem decompress_spec (hx : x.IsCanonical) (odd : Bool) :
    (∃ p y h, decompress x odd = .ok p ∧ p.Denotes (.some x.toZMod y h) ∧
      (y.val % 2 = 1 ↔ odd = true)) ∨
    (decompress x odd = .error (.pointNotOnCurve "CurvePoint::from_compressed") ∧
      ∀ y, ¬(curve (7 : Fp)).Nonsingular x.toZMod y) := by
  rcases hs : (curveRhs x).sqrt? with _ | y
  · refine .inr ⟨?_, ?_⟩
    · unfold decompress
      rw [hs, Option.elim_none]
      rfl
    · intro y hy
      rw [FieldElement.sqrt?_eq_none_iff (isCanonical_curveRhs x), toZMod_curveRhs] at hs
      rw [nonsingular_iff_equation] at hy
      exact hs ⟨y, by rw [← sq, hy]⟩
  · left
    obtain ⟨hyc, hysq⟩ := FieldElement.sqrt?_eq_some hs
    have hn := nonsingular_of_sq hysq
    have hodd := FieldElement.isOdd_iff hyc
    rw [decompress_of_some hs]
    by_cases hp : y.isOdd = odd
    · rw [if_pos (beq_iff_eq.mpr hp)]
      exact ⟨_, _, hn, rfl, denotes_ofAffine hx hyc hn, by rw [← hodd, hp]⟩
    · rw [if_neg (beq_iff_eq.not.mpr hp)]
      have hnc := FieldElement.isCanonical_neg hyc
      have hneg : (curve (7 : Fp)).Nonsingular x.toZMod (-y).toZMod := by
        rw [FieldElement.toZMod_neg hyc, nonsingular_iff_equation, neg_sq,
          ← nonsingular_iff_equation]
        exact hn
      refine ⟨_, _, hneg, rfl, denotes_ofAffine hx hnc hneg, ?_⟩
      rw [FieldElement.toZMod_neg hyc, val_neg_odd_iff (y_ne_zero hn), ← hodd]
      cases odd <;> simpa using hp

lemma isZeroBytes_cons {tag : UInt8} (h : tag ≠ 0) (bytes : List UInt8) :
    isZeroBytes (tag :: bytes) = false := by
  simp [isZeroBytes, h]

/-- A tag and 32 bytes are an abscissa to be decompressed. -/
lemma ofCompressed_cons {tag : UInt8} {bytes : List UInt8} (hlen : bytes.length = 32)
    (htag : (tag == 2 || tag == 3) = true) :
    ofCompressed (tag :: bytes) =
      FieldElement.ofBytes bytes >>= fun x => decompress x (tag == 3) := by
  have hsize : ((tag :: bytes).length == Parameters.compressedSize) = true := by
    rw [List.length_cons, hlen]
    rfl
  have hzero : isZeroBytes (tag :: bytes) = false := by
    refine isZeroBytes_cons ?_ bytes
    rintro rfl
    exact absurd htag (by decide)
  unfold ofCompressed requireLength requireParameter require
  generalize decompress = f
  rw [hsize, hzero, List.headD_cons, List.drop_one, List.tail_cons]
  simp only [htag, if_true]
  rfl

/-- The compressed form of an abscissa below the prime is decompressed. -/
lemma ofCompressed_parityTag {a : U256} (ha : a.toNat < fieldPrime) (odd : Bool) :
    ofCompressed (parityTag odd :: a.toBytes.toList) = decompress ⟨a⟩ odd := by
  have htag : (parityTag odd == 2 || parityTag odd == 3) = true := by cases odd <;> decide
  have hodd : (parityTag odd == 3) = odd := by cases odd <;> decide
  have hx : FieldElement.ofBytes a.toBytes.toList = pure ⟨a⟩ :=
    FieldElement.ofBytes_toBytes ((FieldElement.isCanonical_iff ⟨a⟩).mpr ha)
  rw [ofCompressed_cons (by simp) htag, hodd, hx, pure_bind]

/-- An abscissa from the prime on is refused. -/
lemma ofCompressed_parityTag_of_le {a : U256} (ha : fieldPrime ≤ a.toNat) (odd : Bool) :
    ∃ e, ofCompressed (parityTag odd :: a.toBytes.toList) = .error e := by
  have htag : (parityTag odd == 2 || parityTag odd == 3) = true := by cases odd <;> decide
  have hc : fieldModulus.contains a = false := by
    rwa [← Bool.not_eq_true, Modulus.contains_iff, toNat_fieldModulus, not_lt]
  refine ⟨.invalidParameter "FieldElement::from_bytes"
    "coordinate is not below the field prime", ?_⟩
  rw [ofCompressed_cons (by simp) htag]
  unfold FieldElement.ofBytes requireParameter require
  rw [U256.ofBytes_toBytes]
  simp only [hc, Bool.false_eq_true, if_false]
  rfl

lemma exists_denotes_of_ofCompressed {a : U256} {odd : Bool} {p : Point}
    (h : ofCompressed (parityTag odd :: a.toBytes.toList) = .ok p) : ∃ P, p.Denotes P := by
  rcases Nat.lt_or_ge a.toNat fieldPrime with ha | ha
  · rw [ofCompressed_parityTag ha] at h
    rcases decompress_spec ((FieldElement.isCanonical_iff ⟨a⟩).mpr ha) odd with
      ⟨q, y, hn, hq, hqP, -⟩ | ⟨he, -⟩
    · rw [hq] at h
      obtain rfl := Except.ok.inj h
      exact ⟨_, hqP⟩
    · rw [he] at h
      cases h
  · obtain ⟨e, he⟩ := ofCompressed_parityTag_of_le ha odd
    rw [he] at h
    cases h

end Point

end Secp256k1
