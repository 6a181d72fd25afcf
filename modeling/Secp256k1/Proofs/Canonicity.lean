import Secp256k1.ConstantTime
import Secp256k1.Proofs.Provenance
import Secp256k1.Proofs.Scalars
import Secp256k1.Proofs.Sec1Grammar

/-!
Field elements as the residues modulo the field prime, one stored number for each class.

Everything that is made of field elements is stored below the prime, and that is what sums and
differences rely on: they take the prime off, or put it back, at most once. It is also why the
stored numbers can be compared, tested and written in place of the classes.
-/

namespace Secp256k1

namespace ConstantTime

/-- Bits that are gathered from words are all zero only if the words are. -/
lemma foldl_or_eq_zero_iff (ws : List UInt64) (acc : UInt64) :
    ws.foldl (· ||| ·) acc = 0 ↔ acc = 0 ∧ ∀ w ∈ ws, w = 0 := by
  induction ws generalizing acc with
  | nil => simp
  | cons w ws ih => rw [List.foldl_cons, ih, UInt64.or_eq_zero_iff, List.forall_mem_cons, and_assoc]

/-- Strings of equally many words have no difference at any place only if they are equal. -/
theorem equalWords_iff {a b : List UInt64} (h : a.length = b.length) :
    equalWords a b = true ↔ a = b := by
  rw [equalWords, beq_iff_eq, foldl_or_eq_zero_iff, eq_self, true_and]
  induction a generalizing b with
  | nil =>
    obtain rfl := List.eq_nil_of_length_eq_zero h.symm
    simp
  | cons x a ih =>
    cases b with
    | nil => cases h
    | cons y b =>
      rw [List.zipWith_cons_cons, List.forall_mem_cons, UInt64.xor_eq_zero_iff,
        ih (Nat.succ.inj h), List.cons.injEq]

end ConstantTime

lemma U256.equalWords_words_iff (a b : U256) :
    ConstantTime.equalWords a.words b.words = true ↔ a = b := by
  have hlen : a.words.length = b.words.length := rfl
  rw [ConstantTime.equalWords_iff hlen]
  cases a
  cases b
  simp [words]

namespace FieldElement

variable {a b : FieldElement} {n : U256}

/-! ### Numbers from outside -/

/-- A number is taken for the element that it is if it is below the prime, and refused if it is
not. -/
structure Admits (read : Except Error FieldElement) (n : ℕ) (refusal : Error) : Prop where
  accepts : n < fieldPrime → ∃ a, read = .ok a ∧ a.value.toNat = n
  refuses : fieldPrime ≤ n → read = .error refusal

/-- What an integer from the prime on is refused with. -/
def notCanonical : Error :=
  .invalidParameter "FieldElement::from_uint" "value is not below the field prime"

/-- The check that every reader makes. -/
lemma admits_of_requireParameter (n : U256) (site why : String) :
    Admits (do requireParameter (fieldModulus.contains n) site why; return mk n) n.toNat
      (.invalidParameter site why) := by
  have hiff : fieldModulus.contains n = true ↔ n.toNat < fieldPrime := by
    rw [Modulus.contains_iff, toNat_fieldModulus]
  constructor
  · intro hlt
    rw [hiff.mpr hlt]
    exact ⟨⟨n⟩, rfl, rfl⟩
  · intro hle
    have hc : fieldModulus.contains n = false := by rwa [← Bool.not_eq_true, hiff, not_lt]
    rw [hc]
    rfl

lemma admits_ofU256 (n : U256) : Admits (ofU256 n) n.toNat notCanonical :=
  admits_of_requireParameter n _ _

lemma admits_ofBytes {bytes : List UInt8} (h : bytes.length = 32) :
    Admits (ofBytes bytes) (bigEndian bytes) notBelowPrime := by
  rw [← U256.toNat_ofBytes h.le]
  exact admits_of_requireParameter (U256.ofBytes bytes) _ _

lemma ofHex_of_ok {text : String} (h : U256.ofHex text = .ok n) : ofHex text = ofU256 n := by
  rw [ofHex, h]
  rfl

lemma ofHex_of_error {text : String} {e : Error} (h : U256.ofHex text = .error e) :
    ofHex text = .error e := by
  rw [ofHex, h]
  rfl

/-! ### Stored numbers in place of classes -/

/-- What is asked of the stored numbers is answered for the classes. -/
structure AnswersByClass (a b : FieldElement) : Prop where
  eq_iff : a = b ↔ a.toZMod = b.toZMod
  equalWords_iff :
    ConstantTime.equalWords a.value.words b.value.words = true ↔ a.toZMod = b.toZMod
  isZero_iff : a.isZero = true ↔ a.toZMod = 0
  isOdd_iff : a.isOdd = true ↔ a.toZMod.val % 2 = 1
  bigEndian_toBytes : bigEndian a.toBytes.toList = a.toZMod.val
  toBytes_eq_iff : a.toBytes = b.toBytes ↔ a.toZMod = b.toZMod

lemma answersByClass (ha : a.IsCanonical) (hb : b.IsCanonical) : AnswersByClass a b where
  eq_iff := (toZMod_inj ha hb).symm
  equalWords_iff := by
    rw [U256.equalWords_words_iff, toZMod_inj ha hb]
    exact value_inj
  isZero_iff := isZero_iff ha
  isOdd_iff := isOdd_iff ha
  bigEndian_toBytes := by rw [val_toZMod ha, (Spells.toBytes ha).value]
  toBytes_eq_iff := by
    constructor
    · intro h
      rw [toZMod, toZMod, (Spells.toBytes ha).value, (Spells.toBytes hb).value, h]
    · intro h
      rw [(toZMod_inj ha hb).mp h]

/-- The number that is stored for the class of an integer is its residue. -/
lemma toNat_eq_emod (ha : a.IsCanonical) {z : ℤ} (h : a.toZMod = (z : Fp)) :
    (a.value.toNat : ℤ) = z % fieldPrime := by
  rw [← val_toZMod ha, h, ZMod.val_intCast]

/-- The results are the residues of the results on integers. -/
structure ComputesResidues (a b : FieldElement) : Prop where
  add : ((a + b).value.toNat : ℤ) = (a.value.toNat + b.value.toNat) % fieldPrime
  sub : ((a - b).value.toNat : ℤ) = (a.value.toNat - b.value.toNat) % fieldPrime
  mul : ((a * b).value.toNat : ℤ) = a.value.toNat * b.value.toNat % fieldPrime
  neg : ((-a).value.toNat : ℤ) = -a.value.toNat % fieldPrime

lemma computesResidues (ha : a.IsCanonical) (hb : b.IsCanonical) : ComputesResidues a b where
  add := by
    refine toNat_eq_emod (isCanonical_add ha hb) ?_
    rw [toZMod_add ha hb]
    simp [toZMod]
  sub := by
    refine toNat_eq_emod (isCanonical_sub ha hb) ?_
    rw [toZMod_sub ha hb]
    simp [toZMod]
  mul := by
    refine toNat_eq_emod (isCanonical_mul a b) ?_
    rw [toZMod_mul]
    simp [toZMod]
  neg := by
    refine toNat_eq_emod (isCanonical_neg ha) ?_
    rw [toZMod_neg ha]
    simp [toZMod]

/-- Every class has its element. -/
lemma exists_made (x : Fp) : ∃ a, Made (.element a) ∧ a.toZMod = x := by
  have hlt : x.val < fieldPrime := ZMod.val_lt x
  have hval : (U256.ofNat x.val).toNat = x.val :=
    U256.toNat_ofNat (hlt.trans (by decide))
  obtain ⟨a, ha, hn⟩ := (admits_ofU256 (U256.ofNat x.val)).accepts (hval.trans_lt hlt)
  refine ⟨a, .ofU256 ha, ?_⟩
  rw [toZMod, hn, hval, ZMod.natCast_zmod_val]

/-- **Field elements are the field, with one stored number for each class.** Whatever elements
have been made, they are stored below the prime, so that comparing, testing and writing what is
stored is doing it to the classes, and their sums, differences, products and opposites are the
residues of those of the integers. No class is missing and none is made twice, and the readers
take the integers below the prime and no others. -/
theorem residues_of_made (ha : Made (.element a)) (hb : Made (.element b)) :
    (a.value.toNat < fieldPrime ∧ AnswersByClass a b ∧ ComputesResidues a b) ∧
    (∀ x : Fp, ∃! a, Made (.element a) ∧ a.toZMod = x) ∧
    (∀ n, Admits (ofU256 n) n.toNat notCanonical) ∧
    (∀ bytes : List UInt8, bytes.length = 32 →
      Admits (ofBytes bytes) (bigEndian bytes) notBelowPrime) ∧
    ∀ text, (∀ n, U256.ofHex text = .ok n → Admits (ofHex text) n.toNat notCanonical) ∧
      ∀ e, U256.ofHex text = .error e → ofHex text = .error e := by
  have hca : a.IsCanonical := ha.sound
  have hcb : b.IsCanonical := hb.sound
  refine ⟨⟨(isCanonical_iff a).mp hca, answersByClass hca hcb, computesResidues hca hcb⟩, ?_,
    admits_ofU256, fun bytes => admits_ofBytes, fun text => ⟨?_, fun e => ofHex_of_error⟩⟩
  · intro x
    obtain ⟨r, hr, rfl⟩ := exists_made x
    exact ⟨r, ⟨hr, rfl⟩, fun s hs => (toZMod_inj hs.1.sound hr.sound).mp hs.2⟩
  · intro n hn
    rw [ofHex_of_ok hn]
    exact admits_ofU256 n

/-- The greatest element and itself, whose sum carries out of 256 bits, and the prime, which is
the least integer that is refused. -/
theorem residues_of_made_greatest :
    let a : FieldElement := -.one
    let prime := "FFFFFFFFFFFFFFFFFFFFFFFFFFFFFFFFFFFFFFFFFFFFFFFFFFFFFFFEFFFFFC2F"
    Made (.element a) ∧ 2 ^ 256 ≤ a.value.toNat + a.value.toNat ∧
      (a + a).value.toNat = fieldPrime - 2 ∧ ofHex prime = .error notCanonical := by
  intro a prime
  have ha : Made (.element a) := .opposite .one
  have hvalue : a.value.toNat = fieldPrime - 1 := by decide +kernel
  have hprime : U256.ofHex prime = .ok fieldModulus.value := by decide +kernel
  obtain ⟨⟨-, -, hresult⟩, -, -, -, hhex⟩ := residues_of_made ha ha
  have hsum := hresult.add
  rw [hvalue, fieldPrime] at hsum
  refine ⟨ha, ?_, ?_, ((hhex prime).1 _ hprime).refuses toNat_fieldModulus.ge⟩
  · rw [hvalue, fieldPrime]
    norm_num
  · rw [fieldPrime]
    omega

end FieldElement

end Secp256k1
