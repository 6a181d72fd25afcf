import Secp256k1.Proofs.GroupLaw
import Secp256k1.Proofs.Histories
import Secp256k1.Proofs.Scalars
import Secp256k1.Proofs.Strategies

/-!
Scalars act on the points of the curve modulo the group order.

The group has as many points as the order says, and the order is prime, so every finite point
has the order of the group. Multiples are therefore determined by the residues of the scalars
and determine them, whichever way they are computed.
-/

namespace Secp256k1

open Point

variable {p : Point} {P : CurvePoint}

/-! ### Multiples in the group -/

/-- **Every finite point has the order of the group.** -/
theorem addOrderOf_eq_groupOrder (hP : P ≠ 0) : addOrderOf P = groupOrder :=
  addOrderOf_eq_prime (order_nsmul P) hP

lemma nsmul_eq_nsmul_iff (hP : P ≠ 0) (a b : ℕ) : a • P = b • P ↔ a ≡ b [MOD groupOrder] := by
  rw [nsmul_eq_nsmul_iff_modEq, addOrderOf_eq_groupOrder hP]

lemma nsmul_eq_zero_iff (hP : P ≠ 0) (a : ℕ) : a • P = 0 ↔ groupOrder ∣ a := by
  rw [← addOrderOf_dvd_iff_nsmul_eq_zero, addOrderOf_eq_groupOrder hP]

namespace U256

lemma toNat_reduce_order_lt (a : U256) : (orderModulus.reduce a).toNat < groupOrder := by
  rw [toNat_reduce_order]
  exact Nat.mod_lt _ prime_groupOrder.pos

@[simp] lemma toFn_reduce (a : U256) : (orderModulus.reduce a).toFn = a.toFn := by
  rw [toFn, toNat_reduce_order, ZMod.natCast_mod, toFn]

/-- The sum of two scalars modulo the order. -/
def sumModOrder (a b : U256) : U256 :=
  orderModulus.add (orderModulus.reduce a) (orderModulus.reduce b)

/-- The product of two scalars modulo the order. -/
def productModOrder (a b : U256) : U256 :=
  orderModulus.mul (orderModulus.reduce a) (orderModulus.reduce b)

lemma sumModOrder_nsmul (a b : U256) (P : CurvePoint) :
    (sumModOrder a b).toNat • P = a.toNat • P + b.toNat • P := by
  rw [nsmul_eq_toFn_smul, sumModOrder, toFn_add a.toNat_reduce_order_lt b.toNat_reduce_order_lt,
    toFn_reduce, toFn_reduce, add_smul, ← nsmul_eq_toFn_smul, ← nsmul_eq_toFn_smul]

lemma productModOrder_nsmul (a b : U256) (P : CurvePoint) :
    (productModOrder a b).toNat • P = b.toNat • a.toNat • P := by
  rw [nsmul_eq_toFn_smul, productModOrder, toFn_mul, toFn_reduce, toFn_reduce, mul_comm, mul_smul,
    ← nsmul_eq_toFn_smul, ← nsmul_eq_toFn_smul]

end U256

/-! ### Multiples that are computed -/

namespace Multiplication

/-- A way to multiply a point: any algorithm, with or without a table of the point. -/
structure Way (p : Point) where
  algorithm : Algorithm
  table : Option OddMultiples
  built : ∀ t ∈ table, ∃ w, OddMultiples.build p w = .ok t

/-- The multiple by a scalar. -/
def Way.times (way : Way p) (k : U256) : Except Error Point :=
  multiply way.algorithm k p way.table

/-- Every way leads to the multiple. -/
lemma Way.computes (way : Way p) (hp : p.Denotes P) (k : U256) :
    Computes (way.times k) (k.toNat • P) := by
  refine multiply_spec way.algorithm k.bitLength_lt hp ?_
  intro t ht
  obtain ⟨w, hw⟩ := way.built t ht
  exact OddMultiples.isTableOf_of_build hp hw

/-- The laws of multiplication by scalars modulo the group order. -/
structure ScalarLaws (p : Point) : Prop where
  add : ∀ (u v w : Way p) (a b : U256),
    Same (do (← u.times a).add (← v.times b)) (w.times (a.sumModOrder b))
  mul : ∀ (u w : Way p) (a b : U256), ∃ q, u.times a = .ok q ∧
    ∀ v : Way q, Same (v.times b) (w.times (a.productModOrder b))
  equals_iff : p.isInfinity = false → ∀ (u v : Way p) (a b : U256), ∃ q r,
    u.times a = .ok q ∧ v.times b = .ok r ∧
      (q.equals r = true ↔ a.toNat ≡ b.toNat [MOD groupOrder])
  isInfinity_iff : p.isInfinity = false → ∀ (u : Way p) (a : U256), ∃ q,
    u.times a = .ok q ∧ (q.isInfinity = true ↔ groupOrder ∣ a.toNat)
  /-- The order of a finite point is the order of the group. -/
  order : p.isInfinity = false → ∃ P, p.Denotes P ∧ addOrderOf P = groupOrder

theorem scalarLaws (hp : p.Denotes P) : ScalarLaws p := by
  have hP : p.isInfinity = false → P ≠ 0 := by
    intro hi
    rw [ne_eq, ← hp.isInfinity_iff, hi]
    exact Bool.false_ne_true
  constructor
  case add =>
    intro u v w a b
    have hsum : Computes (do (← u.times a).add (← v.times b)) (a.toNat • P + b.toNat • P) :=
      (u.computes hp a).bind fun q hq => (v.computes hp b).bind fun r hr => hq.computes_add hr
    rw [← U256.sumModOrder_nsmul] at hsum
    exact hsum.same (w.computes hp _)
  case mul =>
    intro u w a b
    obtain ⟨q, hq, hqP⟩ := u.computes hp a
    refine ⟨q, hq, fun v => ?_⟩
    have hproduct := v.computes hqP b
    rw [← U256.productModOrder_nsmul] at hproduct
    exact hproduct.same (w.computes hp _)
  case equals_iff =>
    intro hi u v a b
    obtain ⟨q, hq, hqP⟩ := u.computes hp a
    obtain ⟨r, hr, hrP⟩ := v.computes hp b
    refine ⟨q, r, hq, hr, ?_⟩
    rw [hqP.equals_iff hrP, nsmul_eq_nsmul_iff (hP hi)]
  case isInfinity_iff =>
    intro hi u a
    obtain ⟨q, hq, hqP⟩ := u.computes hp a
    refine ⟨q, hq, ?_⟩
    rw [hqP.isInfinity_iff, nsmul_eq_zero_iff (hP hi)]
  case order =>
    intro hi
    exact ⟨P, hp, addOrderOf_eq_groupOrder (hP hi)⟩

end Multiplication

/-! ### Public keys -/

open Engine Context

variable {σ τ : Type} [RandomSource σ] [RandomSource τ]

/-- A public key is the multiple of the generator by a private key. -/
lemma returns_publicKey {I : Context → Prop} (hI : Invariant I) (hS : ∀ c, I c → c.Sound)
    (d : Scalar) :
    Returns I (d.publicKey : Session σ Point) fun q =>
      d.isPrivateKey = true ∧ q.Denotes (d.value.toNat • basePoint) := by
  unfold Scalar.publicKey
  rcases hd : d.isPrivateKey
  · refine ensures_lift_error rfl ?_
    intro q h
    cases h
  · refine ensures_lift_ok rfl ?_
    refine (returns_multiplySecret hI hS d denotes_generator).bind fun q hq => ?_
    split
    · exact returns_throw
    · exact returns_pure ⟨rfl, hq⟩

/-- Private keys with one public key are equal. -/
lemma value_eq_of_publicKey {d e : Scalar} {s : State σ Context} {t : State τ Context}
    (hs : Reachable s.store) (ht : Reachable t.store) {q r : Point}
    (hq : (d.publicKey.run s).1 = .ok q) (hr : (e.publicKey.run t).1 = .ok r)
    (h : q.equals r = true) : d.value = e.value := by
  obtain ⟨hd, hqP⟩ := (returns_publicKey invariant_sound (fun _ h => h) d s hs.sound).1 q hq
  obtain ⟨he, hrP⟩ := (returns_publicKey invariant_sound (fun _ h => h) e t ht.sound).1 r hr
  rw [hqP.equals_iff hrP, nsmul_eq_nsmul_iff basePoint_ne_zero] at h
  obtain ⟨-, hdn⟩ := d.isPrivateKey_iff.mp hd
  obtain ⟨-, hen⟩ := e.isPrivateKey_iff.mp he
  exact U256.toNat_inj (h.eq_of_lt_of_lt hdn hen)

/-! ### The result -/

/-- **Scalars act modulo the group order** on every point of the curve, whichever way multiples
are computed. A multiple of a finite point determines the residue of the scalar, so that
different private keys have different public keys. -/
theorem scalars_act_modulo_order (hp : p.WellFormed) (hc : p.isOnCurve = true) :
    Multiplication.ScalarLaws p ∧
      ∀ {σ τ : Type} [RandomSource σ] [RandomSource τ] (d e : Scalar) (s : State σ Context)
        (t : State τ Context), Reachable s.store → Reachable t.store → ∀ q r,
        (d.publicKey.run s).1 = .ok q → (e.publicKey.run t).1 = .ok r → q.equals r = true →
          d.value = e.value := by
  obtain ⟨P, hP⟩ := (isOnCurve_iff hp).mp hc
  refine ⟨Multiplication.scalarLaws hP, ?_⟩
  intro σ τ _ _ d e s t hs ht q r hq hr h
  exact value_eq_of_publicKey hs ht hq hr h

/-- Twice the generator is not infinity, and its multiple by 1 more than the order is the
generator's multiple by 1. -/
theorem scalars_act_modulo_order_generator :
    generator.WellFormed ∧ generator.isOnCurve = true ∧
      (∃ q, Multiplication.montgomeryLadder (U256.ofWord 2) generator = .ok q ∧
        q.isInfinity = false) ∧
      ∃ q r, Multiplication.doubleAndAdd U256.one generator = .ok q ∧
        Multiplication.montgomeryLadder (Parameters.order.wrappingAdd .one) generator = .ok r ∧
        q.equals r = true := by
  have hg := denotes_generator
  have hlaws := (scalars_act_modulo_order hg.wellFormed hg.isOnCurve).1
  have hladder : ∀ t ∈ (none : Option OddMultiples), ∃ w, OddMultiples.build generator w = .ok t :=
    fun t h => by cases h
  refine ⟨hg.wellFormed, hg.isOnCurve, ?_, ?_⟩
  · obtain ⟨q, hq, hiff⟩ :=
      hlaws.isInfinity_iff rfl ⟨.montgomeryLadder, none, hladder⟩ (.ofWord 2)
    refine ⟨q, hq, ?_⟩
    rw [← Bool.not_eq_true, hiff]
    decide
  · obtain ⟨q, r, hq, hr, hiff⟩ := hlaws.equals_iff rfl ⟨.doubleAndAdd, none, hladder⟩
      ⟨.montgomeryLadder, none, hladder⟩ .one (Parameters.order.wrappingAdd .one)
    refine ⟨q, r, hq, hr, hiff.mpr ?_⟩
    decide

end Secp256k1
