import Secp256k1.Proofs.Inverses

/-!
Scalars that remember their inverse.

What a scalar remembers is the inverse that would be computed of its value now. That is so when
the inverse is computed, every call keeps it so, and a call that makes a new value remembers
nothing. So it never shows whether an inverse was remembered or computed.
-/

namespace Secp256k1.Scalar

variable {s t : Scalar} {a v : U256}

/-! ### What is remembered -/

/-- The value is a residue, and the inverse that is remembered is the one that inverting the value
gives. -/
structure Coherent (s : Scalar) : Prop where
  lt : s.value.toNat < groupOrder
  cached : ∀ v, s.cachedInverse = some v → orderModulus.invert s.value = .ok v

lemma coherent_of_none (hlt : s.value.toNat < groupOrder) (hs : s.cachedInverse = none) :
    s.Coherent where
  lt := hlt
  cached v hv := by
    rw [hs] at hv
    cases hv

lemma coherent_ofU256 (a : U256) : (ofU256 a).Coherent := by
  refine coherent_of_none ?_ rfl
  rw [ofU256, ← toNat_orderModulus]
  exact orderModulus.toNat_reduce_lt a

lemma coherent_of_ofPrivateKey (h : ofPrivateKey a = .ok s) : s.Coherent := by
  unfold ofPrivateKey at h
  obtain ⟨_, -, h⟩ := exists_of_bind_eq_ok h
  obtain ⟨_, hlt, h⟩ := exists_of_bind_eq_ok h
  obtain rfl := Except.ok.inj h
  refine coherent_of_none ?_ rfl
  rw [← toNat_orderModulus]
  exact (Modulus.contains_iff _ _).mp (of_require_eq_ok hlt)

lemma coherent_wipe (s : Scalar) : s.wipe.Coherent :=
  coherent_of_none prime_groupOrder.pos rfl

lemma Coherent.touch (h : s.Coherent) : s.touch.Coherent := ⟨h.lt, h.cached⟩

/-! ### Inverting -/

/-- The scalar as it would be if it did not remember its inverse. -/
def forget (s : Scalar) : Scalar := { s with cachedInverse := none }

lemma inverse_of_some (h : s.cachedInverse = some v) : s.inverse = (.ok v, s.touch) := by
  simp only [inverse, Scalar.touch, h]

lemma inverse_of_ok (hs : s.cachedInverse = none) (h : orderModulus.invert s.value = .ok v) :
    s.inverse = (.ok v, { s.touch with cachedInverse := some v }) := by
  simp only [inverse, Scalar.touch, hs, h]

lemma inverse_of_error {e : Error} (hs : s.cachedInverse = none)
    (h : orderModulus.invert s.value = .error e) : s.inverse = (.error e, s.touch) := by
  simp only [inverse, Scalar.touch, hs, h]

/-- A scalar gives the inverse of its value, and remembers it from then on. -/
lemma Coherent.inverse_eq_of_ok (h : s.Coherent) (hv : orderModulus.invert s.value = .ok v) :
    s.inverse = (.ok v, { s.touch with cachedInverse := some v }) := by
  rcases hs : s.cachedInverse with _ | w
  · exact inverse_of_ok hs hv
  · obtain rfl := Except.ok.inj ((h.cached w hs).symm.trans hv)
    rw [inverse_of_some hs, ← hs]
    rfl

/-- A scalar without an inverse remembers none, and is left as it is. -/
lemma Coherent.inverse_eq_of_error {e : Error} (h : s.Coherent)
    (he : orderModulus.invert s.value = .error e) : s.inverse = (.error e, s.touch) := by
  refine inverse_of_error ?_ he
  rcases hs : s.cachedInverse with _ | w
  · rfl
  · cases (h.cached w hs).symm.trans he

lemma Coherent.forget (h : s.Coherent) : s.forget.Coherent := coherent_of_none h.lt rfl

/-- **What is remembered does not show** in the inverse that is given. -/
theorem Coherent.fst_inverse_forget (h : s.Coherent) : s.forget.inverse.1 = s.inverse.1 := by
  rcases hv : orderModulus.invert s.value with e | v
  · rw [h.inverse_eq_of_error hv, h.forget.inverse_eq_of_error hv]
  · rw [h.inverse_eq_of_ok hv, h.forget.inverse_eq_of_ok hv]

lemma Coherent.inverse (h : s.Coherent) : s.inverse.2.Coherent := by
  rcases hv : orderModulus.invert s.value with e | v
  · rw [h.inverse_eq_of_error hv]
    exact h.touch
  · rw [h.inverse_eq_of_ok hv]
    refine ⟨h.lt, ?_⟩
    rintro _ ⟨⟩
    exact hv

/-! ### Provenance -/

/-- Scalars that come from any number of calls, on scalars that have come from calls before. A copy
of a scalar remembers what the scalar does, so that it is the scalar itself. -/
inductive Made : Scalar → Prop
  | ofU256 (a : U256) : Made (ofU256 a)
  | ofPrivateKey {a : U256} {s : Scalar} (h : ofPrivateKey a = .ok s) : Made s
  | ofBytes {bytes : List UInt8} {s : Scalar} (h : ofBytes bytes = .ok s) : Made s
  | ofBytesReduced (bytes : List UInt8) : Made (ofBytesReduced bytes)
  /-- The scalar after its inverse has been asked for, whether there was one or not. -/
  | inverse {s : Scalar} (hs : Made s) : Made s.inverse.2
  | add {s t : Scalar} (hs : Made s) (ht : Made t) : Made (s.add t)
  | mul {s t : Scalar} (hs : Made s) (ht : Made t) : Made (s.mul t)
  | neg {s : Scalar} (hs : Made s) : Made s.neg
  | touch {s : Scalar} (hs : Made s) : Made s.touch
  | wipe {s : Scalar} (hs : Made s) : Made s.wipe

/-- The induction is on the calls. -/
lemma Made.coherent (h : Made s) : s.Coherent := by
  induction h with
  | ofU256 a => exact coherent_ofU256 a
  | ofPrivateKey h => exact coherent_of_ofPrivateKey h
  | ofBytes h => exact coherent_of_ofPrivateKey h
  | ofBytesReduced bytes => exact coherent_ofU256 _
  | inverse _ ih => exact ih.inverse
  | add => exact coherent_ofU256 _
  | mul => exact coherent_ofU256 _
  | neg => exact coherent_ofU256 _
  | touch _ ih => exact ih.touch
  | wipe => exact coherent_wipe _

/-! ### Results -/

/-- The results are the residues of the results on integers. -/
structure ComputesResidues (s t : Scalar) : Prop where
  add : ((s.add t).value.toNat : ℤ) = (s.value.toNat + t.value.toNat) % groupOrder
  mul : ((s.mul t).value.toNat : ℤ) = s.value.toNat * t.value.toNat % groupOrder
  neg : (s.neg.value.toNat : ℤ) = -s.value.toNat % groupOrder

lemma toNat_ofU256 (a : U256) : (ofU256 a).value.toNat = a.toNat % groupOrder :=
  U256.toNat_reduce_order a

lemma Coherent.computesResidues (hs : s.Coherent) (ht : t.Coherent) : ComputesResidues s t where
  add := by
    have hlt := hs.lt
    have hlt' := ht.lt
    rw [← toNat_orderModulus] at hlt hlt'
    rw [Scalar.add, toNat_ofU256, Modulus.toNat_add hlt hlt', toNat_orderModulus, Nat.mod_mod]
    push_cast
    rfl
  mul := by
    rw [Scalar.mul, toNat_ofU256, Modulus.toNat_mul, toNat_orderModulus, Nat.mod_mod]
    push_cast
    rfl
  neg := by
    rw [Scalar.neg, toNat_ofU256, U256.toNat_neg_order hs.lt.le, Nat.mod_mod, Int.natCast_mod,
      Nat.cast_sub hs.lt.le, sub_eq_neg_add, Int.add_emod_right]

/-- What is said of a scalar that has no inverse. -/
def noInverse : Error := .invalidParameter "Modulus::invert" "zero has no inverse"

/-- Only zero has no inverse. -/
lemma Coherent.invert_eq_error_iff (h : s.Coherent) :
    orderModulus.invert s.value = .error noInverse ↔ s.value.toNat = 0 := by
  refine (invertsExactly_orderModulus.refuses s.value).trans ?_
  rw [toNat_orderModulus, Nat.modEq_zero_iff_dvd]
  exact ⟨fun hd => Nat.eq_zero_of_dvd_of_lt hd h.lt, fun h0 => h0 ▸ dvd_zero _⟩

/-- The inverse of every other scalar makes the product one. -/
lemma Coherent.exists_invert (h : s.Coherent) (h0 : s.value.toNat ≠ 0) :
    ∃ v, orderModulus.invert s.value = .ok v ∧ v.toNat < groupOrder ∧
      s.value.toNat * v.toNat ≡ 1 [MOD groupOrder] := by
  have hne := h.invert_eq_error_iff.not.mpr h0
  rw [noInverse, invertsExactly_orderModulus.refuses] at hne
  obtain ⟨v, hv, -, hle, hone⟩ := invertsExactly_orderModulus.inverts s.value hne
  rw [toNat_orderModulus] at hle hone
  have hpos := prime_groupOrder.pos
  exact ⟨v, hv, by omega, hone⟩

/-- What is remembered makes the product one. -/
lemma Coherent.modEq_one (h : s.Coherent) (hv : s.cachedInverse = some v) :
    s.value.toNat * v.toNat ≡ 1 [MOD groupOrder] := by
  have hcached := h.cached v hv
  have h0 : s.value.toNat ≠ 0 := by
    intro h0
    rw [h.invert_eq_error_iff.mpr h0] at hcached
    cases hcached
  obtain ⟨w, hw, -, hone⟩ := h.exists_invert h0
  obtain rfl := Except.ok.inj (hcached.symm.trans hw)
  exact hone

/-- **A remembered inverse is never stale.** Whatever calls a scalar comes from, its value is below
the order, and what it remembers is inverse to the value. So it gives the inverse that it would
compute if it remembered none, and remembers what it gives. It refuses to be inverted exactly if
it is zero, and then its value and its memory stay as they were. Sums, products and opposites of
such scalars are those of the integers modulo the order. -/
theorem remembered_inverse_exact (hs : Made s) :
    s.value.toNat < groupOrder ∧
    (∀ v, s.cachedInverse = some v → s.value.toNat * v.toNat ≡ 1 [MOD groupOrder]) ∧
    s.inverse.1 = s.forget.inverse.1 ∧
    (s.inverse.1 = .error noInverse ↔ s.value.toNat = 0) ∧
    (s.value.toNat = 0 → s.inverse = (.error noInverse, { s with used := true })) ∧
    (s.value.toNat ≠ 0 → ∃ v, v.toNat < groupOrder ∧
      s.value.toNat * v.toNat ≡ 1 [MOD groupOrder] ∧
      s.inverse = (.ok v, { s with used := true, cachedInverse := some v })) ∧
    ∀ t, Made t → ComputesResidues s t := by
  have h := hs.coherent
  have hzero : s.value.toNat = 0 → s.inverse = (.error noInverse, { s with used := true }) :=
    fun h0 => h.inverse_eq_of_error (h.invert_eq_error_iff.mpr h0)
  have hother : s.value.toNat ≠ 0 → ∃ v, v.toNat < groupOrder ∧
      s.value.toNat * v.toNat ≡ 1 [MOD groupOrder] ∧
      s.inverse = (.ok v, { s with used := true, cachedInverse := some v }) := by
    intro h0
    obtain ⟨v, hv, hlt, hone⟩ := h.exists_invert h0
    exact ⟨v, hlt, hone, h.inverse_eq_of_ok hv⟩
  refine ⟨h.lt, fun v => h.modEq_one, h.fst_inverse_forget.symm, ⟨?_, ?_⟩, hzero, hother,
    fun t ht => h.computesResidues ht.coherent⟩
  · intro herror
    by_contra h0
    obtain ⟨v, -, -, hv⟩ := hother h0
    rw [hv] at herror
    cases herror
  · intro h0
    rw [hzero h0]

/-- The scalar 2 remembers its inverse once it has been asked for, and zero has none. -/
theorem remembered_inverse_exact_two :
    ∃ s z : Scalar, Made s ∧ Made z ∧ s.value = .ofWord 2 ∧
      (∃ v, s.cachedInverse = some v ∧ 2 * v.toNat ≡ 1 [MOD groupOrder]) ∧
      s.inverse.1 = s.forget.inverse.1 ∧ z.inverse = (.error noInverse, z) := by
  have htwo : Made (ofU256 (.ofWord 2)) := .ofU256 _
  have hzero : Made (ofU256 orderModulus.value) := .ofU256 _
  have hvalue : (ofU256 (.ofWord 2)).value = .ofWord 2 := by decide
  obtain ⟨-, -, -, -, -, hinverse, -⟩ := remembered_inverse_exact htwo
  obtain ⟨v, -, hone, hv⟩ := hinverse (by decide)
  obtain ⟨-, -, hforget, -⟩ := remembered_inverse_exact (.inverse htwo)
  obtain ⟨-, -, -, -, hrefused, -⟩ := remembered_inverse_exact hzero
  rw [hvalue, U256.toNat_ofWord] at hone
  refine ⟨_, _, .inverse htwo, hzero, ?_, ⟨v, ?_, hone⟩, hforget, hrefused (by decide)⟩
  · rw [hv]
    exact hvalue
  · rw [hv]

end Secp256k1.Scalar
