import Secp256k1.Proofs.Multiples

/-!
The strategies for multiplication, compared.

On 256-bit scalars they agree to the last coordinate. On 512-bit scalars doubling and adding and
the ladder still agree, and signed windows agree with them except for the odd scalars next to
`2 ^ 512`: the recoding rounds these up to `2 ^ 512`, which 512 bits do not hold, and the result
is short of the multiple by `2 ^ 512` times the point. Off the curve there are no tables, and
all strategies agree there.
-/

namespace Secp256k1

open Point LawfulBitString

namespace Multiplication

variable {p : Point} {P : CurvePoint}

/-! ### Scalars of 256 bits -/

/-- What an algorithm computes depends on the multiple only. -/
lemma multiply_eq {κ : Type} [BitString κ] [LawfulBitString κ] {k : κ} {r : Point}
    (algorithm : Algorithm) (hk : BitString.bitLength k < 512) (hp : p.Denotes P)
    {table : Option OddMultiples} (ht : ∀ t ∈ table, t.IsTableOf P)
    (hr : r.Denotes (toNat k • P)) (hrs : r.system = .affine) :
    multiply algorithm k p table = .ok r := by
  obtain ⟨s, hs, hsP⟩ := multiply_spec algorithm hk hp ht
  rw [hs, hsP.eq_of_affine hr (system_of_multiply hs) hrs]

/-- **All strategies compute the multiple**, and one and the same affine form of it, for every
scalar, every point of the curve in whatever coordinates, and every table of the point. -/
theorem strategies_compute_multiple (k : U256) (hp : p.WellFormed) (hc : p.isOnCurve = true) :
    ∃ P r, p.Denotes P ∧ r.Denotes (k.toNat • P) ∧ r.system = .affine ∧
      (∀ algorithm, multiply algorithm k p none = .ok r) ∧
      ∀ w, 2 ≤ w → w ≤ 8 → P ≠ 0 → ∃ t, OddMultiples.build p w = .ok t ∧
        ∀ algorithm, multiply algorithm k p (some t) = .ok r := by
  obtain ⟨P, hP⟩ := (isOnCurve_iff hp).mp hc
  obtain ⟨r, hr, hrP⟩ := montgomeryLadder_spec k hP
  have hrs := system_of_montgomeryLadder hr
  refine ⟨P, r, hP, hrP, hrs, ?_, ?_⟩
  · intro algorithm
    exact multiply_eq algorithm k.bitLength_lt hP (fun t h => by cases h) hrP hrs
  · intro w hw2 hw8 hP0
    obtain ⟨t, ht, htP⟩ := OddMultiples.build_spec hw2 hw8 hP hP0
    refine ⟨t, ht, fun algorithm => ?_⟩
    exact multiply_eq algorithm k.bitLength_lt hP (fun u h => Option.some.inj h ▸ htP) hrP hrs

/-- The group order takes the generator to infinity, also with a table. -/
theorem strategies_compute_multiple_order :
    generator.WellFormed ∧ generator.isOnCurve = true ∧
      (∀ algorithm, multiply algorithm Parameters.order generator none = .ok infinity) ∧
      ∃ t, OddMultiples.build generator 4 = .ok t ∧
        ∀ algorithm, multiply algorithm Parameters.order generator (some t) = .ok infinity := by
  have hw := denotes_generator.wellFormed
  have hc := denotes_generator.isOnCurve
  obtain ⟨P, r, hP, hr, hrs, hnone, htable⟩ :=
    strategies_compute_multiple Parameters.order hw hc
  obtain rfl := hP.unique denotes_generator
  rw [toNat_order, order_nsmul] at hr
  obtain rfl := hr.eq_of_affine denotes_infinity hrs rfl
  exact ⟨hw, hc, hnone, htable 4 (by omega) (by omega) basePoint_ne_zero⟩

/-! ### Scalars of 512 bits -/

/-- No point but infinity is taken to infinity by `2 ^ 512`. -/
lemma two_pow_smul_ne_zero (hP : P ≠ 0) : (2 ^ 512 : ℤ) • P ≠ 0 := by
  have h2 : (2 : Fn) ≠ 0 := by
    have h : ¬groupOrder ∣ 2 := by decide
    rwa [← ZMod.natCast_eq_zero_iff] at h
  have h : ((2 ^ 512 : ℤ) : Fn) ≠ 0 := by
    rw [Int.cast_pow, Int.cast_ofNat]
    exact pow_ne_zero 512 h2
  rw [← Int.cast_smul_eq_zsmul Fn]
  exact smul_ne_zero h hP

/-- **Signed windows on scalars of 512 bits** give the multiple, or what is short of it by
`2 ^ 512` times the point. -/
theorem windowedNaf_wide (k : U512) (hp : p.Denotes P) {t : OddMultiples} (ht : t.IsTableOf P) :
    ∃ r, windowedNaf k p (some t) = .ok r ∧
      (r.Denotes (k.toNat • P) ∧ ¬SignedDigits.Wraps t.window k.toNat ∨
        r.Denotes (((k.toNat : ℤ) - 2 ^ 512) • P) ∧ SignedDigits.Wraps t.window k.toNat) := by
  have hw15 : t.window ≤ 15 := ht.window_le.trans (by omega)
  have hdig : SignedDigits.Recoding t.window k _ := recoding_ofScalar ht.window_pos hw15 k
  by_cases hw : SignedDigits.Wraps t.window k.toNat
  · have hk0 : k.toNat ≠ 0 := by
      have hodd := hw.1
      omega
    obtain ⟨r, hr, hrP⟩ := windowedNaf_spec_of_encodes hp ht
      (hdig.encodes_of_wraps ht.window_pos hw15 hw) fun h => absurd h hk0
    exact ⟨r, hr, .inr ⟨hrP, hw⟩⟩
  · obtain ⟨r, hr, hrP⟩ := windowedNaf_spec_of_encodes hp ht
      (hdig.encodes ht.window_pos hw15 hw) fun h => by rw [show k.toNat = 0 from h, Nat.cast_zero]
    rw [natCast_zsmul] at hrP
    exact ⟨r, hr, .inl ⟨hrP, hw⟩⟩

/-- **The strategies on scalars of 512 bits** never fail. Signed windows agree with the others
except on the odd scalars next to `2 ^ 512`. -/
theorem strategies_wide (k : U512) (hp : p.WellFormed) (hc : p.isOnCurve = true)
    (hi : p.isInfinity = false) {w : ℕ} (hw2 : 2 ≤ w) (hw8 : w ≤ 8) :
    ∃ P t r s, p.Denotes P ∧ OddMultiples.build p w = .ok t ∧
      doubleAndAdd k p = .ok r ∧ montgomeryLadder k p = .ok r ∧ r.Denotes (k.toNat • P) ∧
      windowedNaf k p (some t) = .ok s ∧
      (s.equals r = true ↔ ¬SignedDigits.Wraps w k.toNat) ∧
      (SignedDigits.Wraps w k.toNat → s.Denotes (((k.toNat : ℤ) - 2 ^ 512) • P)) := by
  obtain ⟨P, hP⟩ := (isOnCurve_iff hp).mp hc
  have hP0 : P ≠ 0 := by
    rintro rfl
    rw [hP.isInfinity_iff.mpr rfl] at hi
    cases hi
  obtain ⟨t, ht, htP⟩ := OddMultiples.build_spec hw2 hw8 hP hP0
  obtain ⟨r, hr, hrP⟩ := doubleAndAdd_spec k hP
  obtain ⟨r', hr', hrP'⟩ := montgomeryLadder_spec k hP
  obtain rfl := hrP.eq_of_affine hrP' (system_of_doubleAndAdd hr) (system_of_montgomeryLadder hr')
  obtain ⟨s, hs, hsP⟩ := windowedNaf_wide k hP htP
  obtain ⟨-, -, -, -, hwindow, -⟩ := OddMultiples.of_build ht
  rw [hwindow] at hsP
  refine ⟨P, t, r, s, hP, ht, hr, hr', hrP, hs, ?_, ?_⟩
  · rcases hsP with ⟨hsP, hw⟩ | ⟨hsP, hw⟩
    · exact iff_of_true ((hsP.equals_iff hrP).mpr rfl) hw
    · refine iff_of_false ?_ (not_not.mpr hw)
      rw [hsP.equals_iff hrP, sub_zsmul, natCast_zsmul]
      intro h
      exact two_pow_smul_ne_zero hP0 (sub_eq_self.mp h)
  · intro hw
    exact (hsP.resolve_left fun h => h.2 hw).1

/-- On the scalar 1 signed windows agree with the other strategies. -/
theorem strategies_wide_one :
    generator.WellFormed ∧ generator.isOnCurve = true ∧ generator.isInfinity = false ∧
      ∃ t r s, OddMultiples.build generator 2 = .ok t ∧
        doubleAndAdd (U512.ofU256 .one) generator = .ok r ∧
        windowedNaf (U512.ofU256 .one) generator (some t) = .ok s ∧ s.equals r = true := by
  have hw := denotes_generator.wellFormed
  have hc := denotes_generator.isOnCurve
  obtain ⟨P, t, r, s, -, ht, hr, -, -, hs, hiff, -⟩ :=
    strategies_wide (.ofU256 .one) hw hc rfl (w := 2) le_rfl (by omega)
  refine ⟨hw, hc, rfl, t, r, s, ht, hr, hs, hiff.mpr ?_⟩
  rw [U512.toNat_ofU256, U256.toNat_one]
  rintro ⟨-, h⟩
  omega

/-- The greatest scalar of 512 bits. -/
def greatest : U512 := ⟨U256.zero.wrappingSub .one, U256.zero.wrappingSub .one⟩

/-- On the greatest scalar signed windows give the opposite of the generator, and the other
strategies do not. -/
theorem strategies_differ_on_greatest :
    ∃ t r s, OddMultiples.build generator 2 = .ok t ∧ doubleAndAdd greatest generator = .ok r ∧
      montgomeryLadder greatest generator = .ok r ∧
      windowedNaf greatest generator (some t) = .ok s ∧
      s.equals generator.neg = true ∧ s.equals r = false := by
  have hg : greatest.toNat = 2 ^ 512 - 1 := by
    have h : (U256.zero.wrappingSub .one).toNat = 2 ^ 256 - 1 := by decide
    rw [U512.toNat_eq_halves, greatest, h]
    omega
  have hwraps : SignedDigits.Wraps 2 greatest.toNat := by
    rw [hg]
    exact ⟨by omega, by omega⟩
  obtain ⟨P, t, r, s, hP, ht, hr, hr', -, hs, hiff, hdiff⟩ := strategies_wide greatest
    denotes_generator.wellFormed denotes_generator.isOnCurve rfl (w := 2) le_rfl (by omega)
  obtain rfl := hP.unique denotes_generator
  have hopposite := hdiff hwraps
  have hminus : (greatest.toNat : ℤ) - 2 ^ 512 = -1 := by omega
  rw [hminus, neg_one_zsmul] at hopposite
  refine ⟨t, r, s, ht, hr, hr', hs, (hopposite.equals_iff hP.neg).mpr rfl, ?_⟩
  rw [← Bool.not_eq_true, hiff]
  exact not_not.mpr hwraps

/-! ### Off the curve -/

/-- **Without a table all strategies agree on all points**, whether they are on the curve, on
another one or at the origin. They give the multiple along chords and tangents, and one and the
same affine form of it. -/
theorem strategies_agree_off_curve {κ : Type} [BitString κ] [LawfulBitString κ] (k : κ)
    (hp : p.WellFormed) :
    ∃ r, montgomeryLadder k p = .ok r ∧ doubleAndAdd k p = .ok r ∧ windowedNaf k p none = .ok r ∧
      r.WellFormed ∧ r.position = p.position.multiple (toNat k) := by
  obtain ⟨r, hr, hw, hpos⟩ := montgomeryLadder_position k hp
  obtain ⟨s, hs, hsw, hspos⟩ := doubleAndAdd_position k hp
  obtain rfl := hw.eq_of_position hsw (system_of_montgomeryLadder hr) (system_of_doubleAndAdd hs)
    (hpos.trans hspos.symm)
  exact ⟨r, hr, hs, hs, hw, hpos⟩

/-- The origin, which is the singular point of `y² = x³`, is its own multiple by 3. -/
theorem strategies_agree_origin :
    let p := ofAffine .zero .zero
    p.WellFormed ∧ p.isOnCurve = false ∧
      (∃ r, montgomeryLadder (U256.ofWord 3) p = .ok r ∧ doubleAndAdd (U256.ofWord 3) p = .ok r ∧
        windowedNaf (U256.ofWord 3) p none = .ok r ∧ r.equals p = true) ∧
      ∃ r, montgomeryLadder (U512.ofU256 (.ofWord 3)) p = .ok r ∧
        doubleAndAdd (U512.ofU256 (.ofWord 3)) p = .ok r ∧
        windowedNaf (U512.ofU256 (.ofWord 3)) p none = .ok r ∧ r.equals p = true := by
  have hp : (ofAffine .zero .zero).WellFormed :=
    wellFormed_ofAffine FieldElement.isCanonical_zero FieldElement.isCanonical_zero
  have hthree : (ofAffine .zero .zero).position.multiple 3 = (ofAffine .zero .zero).position := by
    simp [Position.multiple, Position.add, Position.double]
  obtain ⟨r, hr, hr', hr'', hw, hpos⟩ := strategies_agree_off_curve (U256.ofWord 3) hp
  obtain ⟨s, hs, hs', hs'', hsw, hspos⟩ :=
    strategies_agree_off_curve (U512.ofU256 (.ofWord 3)) hp
  refine ⟨hp, by decide +kernel, ⟨r, hr, hr', hr'', ?_⟩, s, hs, hs', hs'', ?_⟩
  · exact (equals_iff_position hw hp).mpr (hpos.trans hthree)
  · exact (equals_iff_position hsw hp).mpr (hspos.trans hthree)

end Multiplication

end Secp256k1
