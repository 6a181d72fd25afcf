import Secp256k1.Multiplication.Blinding
import Secp256k1.Proofs.Tables
import Secp256k1.Proofs.Triples

/-!
The algorithms for multiples of a point agree.

Doubling and adding and the ladder follow chords and tangents to the multiple of any point of the
plane. For the points of the curve that is the multiple in the group, which signed windows and
the computations on blinded scalars and masked points give, too.
-/

namespace Secp256k1

open Point

/-! ### Bit strings -/

/-- A type of bit strings that are the binary digits of natural numbers. -/
class LawfulBitString (κ : Type) [BitString κ] where
  toNat : κ → ℕ
  toNat_lt (k : κ) : toNat k < 2 ^ BitString.width κ
  bit_eq (k : κ) (i : ℕ) : BitString.bit k i = (toNat k).testBit i
  bitLength_eq (k : κ) : BitString.bitLength k = (toNat k).size
  isZero_iff (k : κ) : BitString.isZero k = true ↔ toNat k = 0
  toNat_wide (k : κ) : (BitString.wide k).toNat = toNat k

instance : LawfulBitString U256 where
  toNat := U256.toNat
  toNat_lt := U256.toNat_lt_two_pow
  bit_eq := U256.bit_eq_testBit
  bitLength_eq := U256.bitLength_eq_size
  isZero_iff := U256.isZero_iff
  toNat_wide := U512.toNat_ofU256

instance : LawfulBitString U512 where
  toNat := U512.toNat
  toNat_lt k := by
    have hw : BitString.width U512 = 512 := rfl
    rw [hw]
    exact k.toNat_lt_two_pow
  bit_eq := U512.bit_eq_testBit
  bitLength_eq := U512.bitLength_eq_size
  isZero_iff := U512.isZero_iff
  toNat_wide _ := rfl

namespace Multiplication

open LawfulBitString

variable {κ : Type} [BitString κ] [LawfulBitString κ] {k : κ} {p : Point} {P : CurvePoint}

/-- Taking in one more bit below those taken so far. -/
lemma shift_in (k : κ) (m i : ℕ) :
    (2 * m + (BitString.bit k i).toNat) * 2 ^ i + toNat k % 2 ^ i =
      m * 2 ^ (i + 1) + toNat k % 2 ^ (i + 1) := by
  rw [bit_eq, Nat.toNat_testBit, Nat.mod_pow_succ, pow_succ]
  ring

lemma mod_width (k : κ) : toNat k % 2 ^ BitString.width κ = toNat k :=
  Nat.mod_eq_of_lt (toNat_lt k)

lemma mod_bitLength (k : κ) : toNat k % 2 ^ BitString.bitLength k = toNat k := by
  rw [bitLength_eq]
  exact Nat.mod_eq_of_lt (Nat.lt_size_self _)

/-- Where every algorithm stops at once, the multiple is infinity. -/
lemma multiple_of_trivial (hp : p.WellFormed)
    (h : (BitString.isZero k || p.isInfinity) = true) :
    p.position.multiple (toNat k) = .infinity := by
  rw [Bool.or_eq_true, isZero_iff, hp.isInfinity_iff_position] at h
  rcases h with h | h <;> simp [h]

/-- A point at a multiple of the position of an element denotes the multiple of the element. -/
lemma denotes_nsmul {r : Point} {n : ℕ} (hp : p.Denotes P) (hr : r.WellFormed)
    (hpos : r.position = p.position.multiple n) : r.Denotes (n • P) := by
  have hc := (Position.curveChart two_ne_zero_Fp 7).position_nsmul P n
  exact denotes_iff.mpr ⟨hr, by rw [hpos, hp.position_eq]; exact hc.symm⟩

/-! ### Doubling and adding -/

/-- The bits below `i` add the rest of the scalar to what the bits above them have given. -/
lemma doubleAndAddBits_spec (k : κ) (hp : p.WellFormed) (i : ℕ) {acc : Point} {m : ℕ}
    (hacc : acc.WellFormed) (hm : acc.position = p.position.multiple m) :
    ∃ r, doubleAndAddBits k p i acc = .ok r ∧ r.WellFormed ∧
      r.position = p.position.multiple (m * 2 ^ i + toNat k % 2 ^ i) := by
  induction i generalizing acc m with
  | zero =>
    refine ⟨acc, rfl, hacc, ?_⟩
    simpa [Nat.mod_one] using hm
  | succ i ih =>
    obtain ⟨twice, hdouble, htwice, hpos⟩ := hacc.double
    obtain ⟨sum, hadd, hsum, hpos'⟩ := htwice.add hp
    rw [hm, Position.double_multiple two_ne_zero_Fp three_ne_zero_Fp] at hpos
    rw [hpos, ← Position.multiple_succ] at hpos'
    unfold doubleAndAddBits
    rw [hdouble, ← shift_in]
    simp only [bind, Except.bind, pure, Except.pure, hadd]
    cases BitString.bit k i
    · exact ih htwice hpos
    · exact ih hsum hpos'

/-- **Doubling and adding gives the multiple** of any point, on the curve or off it. -/
theorem doubleAndAdd_position (k : κ) (hp : p.WellFormed) :
    ∃ r, doubleAndAdd k p = .ok r ∧ r.WellFormed ∧
      r.position = p.position.multiple (toNat k) := by
  unfold doubleAndAdd
  split
  case isTrue h =>
    refine ⟨.infinity, rfl, wellFormed_infinity, ?_⟩
    rw [multiple_of_trivial hp h, position_infinity]
  case isFalse =>
    have h := doubleAndAddBits_spec k hp.toAffine (BitString.bitLength k) (m := 0)
      wellFormed_infinity (by simp)
    rwa [Nat.zero_mul, Nat.zero_add, mod_bitLength, hp.position_toAffine] at h

theorem doubleAndAdd_spec (k : κ) (hp : p.Denotes P) :
    ∃ r, doubleAndAdd k p = .ok r ∧ r.Denotes (toNat k • P) := by
  obtain ⟨r, hr, hw, hpos⟩ := doubleAndAdd_position k hp.wellFormed
  exact ⟨r, hr, denotes_nsmul hp hw hpos⟩

/-! ### The ladder -/

/-- The registers hold a multiple and the next one. -/
structure Rungs.At (r : Rungs) (P : Position Fp) (m : ℕ) : Prop where
  lower_canonical : r.lower.IsCanonical
  upper_canonical : r.upper.IsCanonical
  lower : r.lower.position = P.multiple m
  upper : r.upper.position = P.multiple (m + 1)

lemma Rungs.At.step {r : Rungs} {P : Position Fp} {m : ℕ} (h : r.At P m) (bit : Bool) :
    (r.step bit).At P (2 * m + bit.toNat) := by
  obtain ⟨hlc, huc, hl, hu⟩ := h
  have hsum : m + (m + 1) = 2 * m + 1 := by omega
  cases bit
  · obtain ⟨hdc, hd⟩ := hlc.double
    obtain ⟨hac, ha⟩ := hlc.add huc
    rw [hl, Position.double_multiple two_ne_zero_Fp three_ne_zero_Fp] at hd
    rw [hl, hu, Position.multiple_add two_ne_zero_Fp three_ne_zero_Fp, hsum] at ha
    exact ⟨hdc, hac, hd, ha⟩
  · obtain ⟨hac, ha⟩ := huc.add hlc
    obtain ⟨hdc, hd⟩ := huc.double
    rw [hl, hu, Position.multiple_add two_ne_zero_Fp three_ne_zero_Fp, add_comm, hsum] at ha
    rw [hu, Position.double_multiple two_ne_zero_Fp three_ne_zero_Fp] at hd
    exact ⟨hac, hdc, ha, hd⟩

lemma climb_spec (k : κ) (i : ℕ) {r : Rungs} {P : Position Fp} {m : ℕ} (h : r.At P m) :
    (climb k i r).At P (m * 2 ^ i + toNat k % 2 ^ i) := by
  induction i generalizing r m with
  | zero => simpa [climb, Nat.mod_one] using h
  | succ i ih =>
    unfold climb
    rw [← shift_in]
    exact ih (h.step _)

/-- **The ladder gives the multiple** of any point, on the curve or off it. -/
theorem montgomeryLadder_position (k : κ) (hp : p.WellFormed) :
    ∃ r, montgomeryLadder k p = .ok r ∧ r.WellFormed ∧
      r.position = p.position.multiple (toNat k) := by
  unfold montgomeryLadder
  split
  case isTrue h =>
    refine ⟨.infinity, rfl, wellFormed_infinity, ?_⟩
    rw [multiple_of_trivial hp h, position_infinity]
  case isFalse =>
    obtain ⟨hc, hpos⟩ := JacobianPoint.ofPoint_spec hp
    have h0 : Rungs.At ⟨.infinity, .ofPoint p⟩ p.position 0 :=
      ⟨JacobianPoint.isCanonical_infinity, hc, by simp, by simp [hpos]⟩
    have h := climb_spec k (BitString.width κ) h0
    rw [Nat.zero_mul, Nat.zero_add, mod_width] at h
    have hw := h.lower_canonical.wellFormed_toPoint
    refine ⟨_, rfl, hw.toAffine, ?_⟩
    rw [hw.position_toAffine, h.lower_canonical.position_toPoint, h.lower]

theorem montgomeryLadder_spec (k : κ) (hp : p.Denotes P) :
    ∃ r, montgomeryLadder k p = .ok r ∧ r.Denotes (toNat k • P) := by
  obtain ⟨r, hr, hw, hpos⟩ := montgomeryLadder_position k hp.wellFormed
  exact ⟨r, hr, denotes_nsmul hp hw hpos⟩

/-! ### Signed windows -/

/-- The table gives the multiple by the integer that the digits stand for. -/
lemma windowedNaf_spec_of_encodes (hp : p.Denotes P) {t : OddMultiples} (ht : t.IsTableOf P) {a : ℤ}
    (h : SignedDigits.Encodes t.window (SignedDigits.ofScalar k t.window) a)
    (h0 : toNat k = 0 → a = 0) :
    ∃ r, windowedNaf k p (some t) = .ok r ∧ r.Denotes (a • P) := by
  have hfor : t.isFor p = true := (ht.base.equals_iff hp).mpr rfl
  simp only [windowedNaf, hfor, requireParameter, require]
  split
  · next htrivial =>
    refine ⟨.infinity, rfl, ?_⟩
    rw [Bool.or_eq_true, isZero_iff, hp.isInfinity_iff] at htrivial
    rcases htrivial with hk | rfl
    · rw [h0 hk, zero_zsmul]
      exact denotes_infinity
    · rw [zsmul_zero]
      exact denotes_infinity
  · exact evaluate_spec ht h

/-- There is room for the digits of every scalar. -/
lemma recoding_ofScalar {w : ℕ} (hw0 : 0 < w) (hw : w ≤ 15) (k : κ) :
    SignedDigits.Recoding w (BitString.wide k) (SignedDigits.ofScalar k w) := by
  have hlt := Nat.lt_size_self (toNat k)
  rw [← bitLength_eq] at hlt
  apply SignedDigits.recoding_recode hw0 hw
  rw [toNat_wide, pow_succ']
  omega

/-- The digits of a scalar stand for the scalar if its top bit is not set. -/
theorem windowedNaf_spec (hk : BitString.bitLength k < 512) (hp : p.Denotes P)
    {table : Option OddMultiples} (ht : ∀ t ∈ table, t.IsTableOf P) :
    ∃ r, windowedNaf k p table = .ok r ∧ r.Denotes (toNat k • P) := by
  cases table with
  | none => exact doubleAndAdd_spec k hp
  | some t =>
    have ht := ht t rfl
    have hw15 : t.window ≤ 15 := ht.window_le.trans (by omega)
    have hlt : toNat k < 2 ^ 511 := by
      rw [bitLength_eq] at hk
      rw [← Nat.size_le]
      exact Nat.le_of_lt_succ hk
    have hdig := (recoding_ofScalar ht.window_pos hw15 k).encodes ht.window_pos hw15
    rw [toNat_wide] at hdig
    obtain ⟨r, hr, hrP⟩ := windowedNaf_spec_of_encodes hp ht
      (hdig (SignedDigits.not_wraps_of_lt hw15 hlt)) fun h => by rw [h]; rfl
    rw [natCast_zsmul] at hrP
    exact ⟨r, hr, hrP⟩

/-! ### All of them -/

/-- **Every algorithm computes the multiple**, and none of them fails. -/
theorem multiply_spec (algorithm : Algorithm) (hk : BitString.bitLength k < 512)
    (hp : p.Denotes P) {table : Option OddMultiples} (ht : ∀ t ∈ table, t.IsTableOf P) :
    ∃ r, multiply algorithm k p table = .ok r ∧ r.Denotes (toNat k • P) := by
  cases algorithm with
  | doubleAndAdd => exact doubleAndAdd_spec k hp
  | montgomeryLadder => exact montgomeryLadder_spec k hp
  | windowedNaf => exact windowedNaf_spec hk hp ht

/-! ### The form of the result -/

omit [LawfulBitString κ] in
lemma system_of_doubleAndAddBits {i : ℕ} {acc r : Point} (hacc : acc.system = .affine)
    (h : doubleAndAddBits k p i acc = .ok r) : r.system = .affine := by
  induction i generalizing acc with
  | zero =>
    obtain rfl := Except.ok.inj h
    exact hacc
  | succ i ih =>
    unfold doubleAndAddBits at h
    obtain ⟨twice, hdouble, h⟩ := exists_of_bind_eq_ok h
    dsimp only at h
    split at h
    · obtain ⟨sum, hadd, h⟩ := exists_of_bind_eq_ok h
      exact ih (system_of_add hadd) h
    · exact ih (system_of_double hdouble) h

lemma system_of_evaluate {t : OddMultiples} {ds : List Int16} {r : Point}
    (h : evaluate t ds = .ok r) : r.system = .affine := by
  cases ds with
  | nil =>
    obtain rfl := Except.ok.inj h
    rfl
  | cons d ds =>
    unfold evaluate at h
    obtain ⟨acc, -, h⟩ := exists_of_bind_eq_ok h
    obtain ⟨twice, hdouble, h⟩ := exists_of_bind_eq_ok h
    split at h
    · obtain rfl := Except.ok.inj h
      exact system_of_double hdouble
    · obtain ⟨m, -, h⟩ := exists_of_bind_eq_ok h
      exact system_of_add h

omit [LawfulBitString κ] in
lemma system_of_doubleAndAdd {r : Point} (h : doubleAndAdd k p = .ok r) : r.system = .affine := by
  unfold doubleAndAdd at h
  split at h
  · obtain rfl := Except.ok.inj h
    rfl
  · exact system_of_doubleAndAddBits rfl h

omit [LawfulBitString κ] in
lemma system_of_montgomeryLadder {r : Point} (h : montgomeryLadder k p = .ok r) :
    r.system = .affine := by
  unfold montgomeryLadder at h
  split at h
  · obtain rfl := Except.ok.inj h
    rfl
  · obtain rfl := Except.ok.inj h
    exact system_toAffine _

omit [LawfulBitString κ] in
lemma system_of_windowedNaf {table : Option OddMultiples} {r : Point}
    (h : windowedNaf k p table = .ok r) : r.system = .affine := by
  cases table with
  | none => exact system_of_doubleAndAdd h
  | some t =>
    unfold windowedNaf at h
    dsimp only at h
    split at h
    · obtain rfl := Except.ok.inj h
      rfl
    · obtain ⟨_, -, h⟩ := exists_of_bind_eq_ok h
      exact system_of_evaluate h

omit [LawfulBitString κ] in
/-- Whatever the operands are, a result is in affine form. -/
theorem system_of_multiply {algorithm : Algorithm} {table : Option OddMultiples} {r : Point}
    (h : multiply algorithm k p table = .ok r) : r.system = .affine := by
  cases algorithm with
  | doubleAndAdd => exact system_of_doubleAndAdd h
  | montgomeryLadder => exact system_of_montgomeryLadder h
  | windowedNaf => exact system_of_windowedNaf h

end Multiplication

/-! ### Blinding -/

lemma U256.toNat_blind (k : U256) (r : UInt64) :
    (k.blind r).toNat = k.toNat + r.toNat * groupOrder := by
  have hk := k.toNat_lt_two_pow
  have hr := r.toNat_lt
  have hn : groupOrder < 2 ^ 256 := by decide
  have hmul : groupOrder * r.toNat ≤ 2 ^ 256 * 2 ^ 64 := Nat.mul_le_mul hn.le hr.le
  unfold U256.blind
  rw [U512.toNat_wrappingAdd, U512.toNat_mulWide, U512.toNat_ofU256, U256.toNat_ofWord, toNat_order,
    mul_comm r.toNat]
  omega

/-- There is room for the digits of scalars of 256 bits, and of blinded ones. -/
lemma U256.bitLength_lt (k : U256) : BitString.bitLength k < 512 := by
  have h : k.toNat.size ≤ 256 := Nat.size_le.mpr k.toNat_lt_two_pow
  rw [LawfulBitString.bitLength_eq]
  exact h.trans_lt (by norm_num)

lemma U256.bitLength_blind_lt (k : U256) (r : UInt64) : BitString.bitLength (k.blind r) < 512 := by
  have hk := k.toNat_lt_two_pow
  have hr := r.toNat_lt
  have hn : groupOrder < 2 ^ 256 := by decide
  have hmul : r.toNat * groupOrder ≤ 2 ^ 64 * 2 ^ 256 := Nat.mul_le_mul hr.le hn.le
  have hlt : (k.blind r).toNat < 2 ^ 400 := by
    rw [toNat_blind]
    omega
  rw [LawfulBitString.bitLength_eq]
  exact (Nat.size_le.mpr hlt).trans_lt (by norm_num)

/-- **Blinding changes the scalar and not the multiple.** -/
theorem U256.blind_smul (k : U256) (r : UInt64) (P : CurvePoint) :
    (k.blind r).toNat • P = k.toNat • P := by
  calc (k.blind r).toNat • P = (k.toNat + r.toNat * groupOrder) • P := by rw [toNat_blind]
    _ = k.toNat • P + r.toNat • groupOrder • P := by rw [add_nsmul, mul_nsmul']
    _ = k.toNat • P := by rw [order_nsmul, nsmul_zero, add_zero]

/-- What a mask makes of a point. -/
lemma Point.WellFormed.rescale_cases {p : Point} (h : p.WellFormed) {mask : FieldElement}
    (hm : mask.IsCanonical) :
    p = .infinity ∧ p.rescale mask = .infinity ∨
      p.isInfinity = false ∧ ∃ z, z.IsCanonical ∧ z.toZMod = p.z.toZMod * mask.toZMod ∧
        p.rescale mask = ofJacobian (p.x * mask.square) (p.y * (mask.square * mask)) z := by
  rcases h.cases with e | e | ⟨e, -⟩
  · exact .inl ⟨e, by rw [e]; rfl⟩
  · refine .inr ⟨by rw [e]; rfl, mask, hm, ?_, by rw [Point.rescale, e]; rfl⟩
    have hz : p.z.toZMod = 1 := by
      rw [e]
      exact FieldElement.toZMod_one
    rw [hz, one_mul]
  · refine .inr ⟨by rw [e]; rfl, p.z * mask, by simp, by simp, ?_⟩
    rw [Point.rescale, e]

lemma Point.WellFormed.rescale {p : Point} (h : p.WellFormed) {mask : FieldElement}
    (hm : mask.IsCanonical) : (p.rescale mask).WellFormed := by
  rcases h.rescale_cases hm with ⟨-, e⟩ | ⟨-, z, hz, -, e⟩
  · rw [e]
    exact wellFormed_infinity
  · rw [e]
    exact wellFormed_ofJacobian (by simp) (by simp) hz

/-- **A mask that is not zero changes the coordinates and not the position.** -/
theorem Point.WellFormed.position_rescale {p : Point} (h : p.WellFormed) {mask : FieldElement}
    (hm : mask.IsCanonical) (hm0 : mask.toZMod ≠ 0) : (p.rescale mask).position = p.position := by
  rcases h.rescale_cases hm with ⟨rfl, e⟩ | ⟨-, z, hz, hzm, e⟩
  · rw [e]
  · have hs := Position.ofTriple_scale p.x.toZMod p.y.toZMod p.z.toZMod hm0
    rw [e, position_ofJacobian _ _ hz, hzm]
    simpa [position, pow_succ, mul_assoc] using hs

lemma Point.Denotes.rescale {p : Point} {P : CurvePoint} (h : p.Denotes P) {mask : FieldElement}
    (hm : mask.IsCanonical) (hm0 : mask.toZMod ≠ 0) : (p.rescale mask).Denotes P := by
  have hpos := h.wellFormed.position_rescale hm hm0
  exact denotes_iff.mpr ⟨h.wellFormed.rescale hm, hpos.trans h.position_eq⟩

end Secp256k1
