import Mathlib.NumberTheory.LucasPrimality
import Mathlib.Tactic.NormNum.Prime
import Mathlib.Tactic.Ring
import Secp256k1.Parameters

/-!
The field prime and the group order are prime.

Both proofs are chains of Lucas certificates. A certificate names a primitive root of its
number and the prime factors of its predecessor; those factors are small, or certified
earlier in the chain. Checking a certificate takes a few modular powers, which the kernel
evaluates.
-/

namespace Secp256k1

/-- The characteristic of the field of the curve. -/
def fieldPrime : ℕ := 2 ^ 256 - 2 ^ 32 - 977

/-- The number of points of the curve. -/
def groupOrder : ℕ := 0xFFFFFFFFFFFFFFFFFFFFFFFFFFFFFFFEBAAEDCE6AF48A03BBFD25E8CD0364141

lemma toNat_prime : Parameters.prime.toNat = fieldPrime := by decide

lemma toNat_order : Parameters.order.toNat = groupOrder := by decide

/-- `a ^ e % m`, for an exponent of at most so many bits. -/
def powMod (m a : ℕ) : ℕ → ℕ → ℕ
  | 0, _ => 1 % m
  | bits + 1, e =>
    let root := powMod m a bits (e / 2)
    if e % 2 = 0 then root * root % m else root * root % m * a % m

lemma powMod_eq (m a : ℕ) {bits e : ℕ} (he : e < 2 ^ bits) : powMod m a bits e = a ^ e % m := by
  induction bits generalizing e with
  | zero =>
    have h0 : e = 0 := by simpa using he
    rw [h0, powMod, pow_zero]
  | succ bits ih =>
    rw [pow_succ] at he
    have hroot := ih (e := e / 2) (by omega)
    have hsq : powMod m a bits (e / 2) * powMod m a bits (e / 2) % m = a ^ (2 * (e / 2)) % m := by
      rw [hroot, ← Nat.mul_mod, ← pow_add, two_mul]
    rw [powMod]
    split
    · next h0 =>
      rw [hsq]
      congr 2
      omega
    · next h1 =>
      rw [hsq, Nat.mod_mul_mod, ← pow_succ]
      congr 2
      omega

namespace Lucas

/-- A primitive root modulo a number, and the primes that divide its predecessor. -/
structure Certificate where
  number : ℕ
  root : ℕ
  factors : List ℕ

/-- `root ^ e` modulo the number. -/
def Certificate.power (c : Certificate) (e : ℕ) : ℕ :=
  powMod c.number c.root (c.number.log2 + 1) e

/-- The factors are known to be prime, the predecessor has no other prime factors, and the
root has the predecessor as its order. -/
def Certificate.check (known : List ℕ) (c : Certificate) : Bool :=
  decide (1 < c.number) && c.factors.all (known.contains ·) &&
    c.factors.prod ^ 256 % (c.number - 1) == 0 && c.power (c.number - 1) == 1 &&
    c.factors.all fun q => c.power ((c.number - 1) / q) != 1

/-- Check certificates one after the other; what has been certified is known from then on. -/
def checkAll : List ℕ → List Certificate → Bool
  | _, [] => true
  | known, c :: cs => c.check known && checkAll (c.number :: known) cs

lemma Certificate.power_eq_one_iff {c : Certificate} (h1 : 1 < c.number) {e : ℕ}
    (he : e < c.number) : (c.root : ZMod c.number) ^ e = 1 ↔ c.power e = 1 := by
  have hb : e < 2 ^ (c.number.log2 + 1) := he.trans Nat.lt_log2_self
  rw [Certificate.power, powMod_eq _ _ hb, ← Nat.cast_pow, ← Nat.cast_one,
    ZMod.natCast_eq_natCast_iff', Nat.mod_eq_of_lt h1]

lemma Certificate.check_sound {known : List ℕ} {c : Certificate} (hk : ∀ q ∈ known, q.Prime)
    (h : c.check known = true) : c.number.Prime := by
  simp only [check, Bool.and_eq_true, decide_eq_true_eq, List.all_eq_true, List.contains_iff_mem,
    beq_iff_eq, bne_iff_ne] at h
  obtain ⟨⟨⟨⟨h1, hf⟩, hprod⟩, hfull⟩, hpart⟩ := h
  refine lucas_primality c.number c.root ?_ fun q hq hdvd => ?_
  · exact (power_eq_one_iff h1 (by omega)).mpr hfull
  · have hq' : q ∣ c.factors.prod :=
      hq.dvd_of_dvd_pow (hdvd.trans (Nat.dvd_of_mod_eq_zero hprod))
    obtain ⟨r, hr, hqr⟩ := (Prime.dvd_prod_iff hq.prime).mp hq'
    obtain rfl : q = r := (Nat.prime_dvd_prime_iff_eq hq (hk r (hf r hr))).mp hqr
    have hlt : (c.number - 1) / q < c.number := (Nat.div_le_self _ _).trans_lt (by omega)
    exact fun h => hpart q hr ((power_eq_one_iff h1 hlt).mp h)

/-- **Soundness**: every number of a chain that passes is prime. -/
theorem prime_of_checkAll (cs : List Certificate) {known : List ℕ}
    (hk : ∀ q ∈ known, q.Prime) (h : checkAll known cs = true) :
    ∀ n ∈ cs.map (·.number), n.Prime := by
  induction cs generalizing known with
  | nil => simp
  | cons c cs ih =>
    rw [checkAll, Bool.and_eq_true] at h
    have hc : c.number.Prime := c.check_sound hk h.1
    have hk' : ∀ q ∈ c.number :: known, q.Prime := List.forall_mem_cons.mpr ⟨hc, hk⟩
    have hcs := ih hk' h.2
    exact List.forall_mem_cons.mpr ⟨hc, hcs⟩

end Lucas

/-! ### The two chains -/

/-- The primes that the chains start from. -/
def smallPrimes : List ℕ :=
  [2, 3, 5, 7, 11, 13, 17, 29, 31, 41, 53, 59, 97, 109, 149, 293, 461, 631, 797, 971, 1373, 1627,
    1871, 2011, 2621, 2657, 4051, 4423, 5323, 7723, 9349, 13441, 16699, 20113, 24809, 28181, 41201,
    85831, 96557, 120233, 305873]

lemma prime_of_mem_smallPrimes : ∀ q ∈ smallPrimes, q.Prime := by
  simp only [smallPrimes, List.forall_mem_cons, List.not_mem_nil, false_imp_iff, implies_true,
    and_true]
  norm_num

def fieldChain : List Lucas.Certificate :=
  [⟨13331831, 13, [2, 5, 971, 1373]⟩,
    ⟨173378833005251801, 6, [2, 5, 2621, 24809, 13331831]⟩,
    ⟨22149492674086928081353, 5, [2, 3, 5323, 173378833005251801]⟩,
    ⟨132896956044521568488119, 6, [2, 3, 22149492674086928081353]⟩,
    ⟨1206781, 10, [2, 3, 5, 20113]⟩,
    ⟨7240687, 3, [2, 3, 1206781]⟩,
    ⟨107590001, 3, [2, 5, 7, 29, 53]⟩,
    ⟨255515944373312847190720520512484175977, 3,
      [2, 7, 11, 1627, 2657, 4423, 41201, 96557, 7240687, 107590001]⟩,
    ⟨205115282021455665897114700593932402728804164701536103180137503955397371, 10,
      [2, 3, 5, 29, 31, 7723, 132896956044521568488119, 255515944373312847190720520512484175977]⟩,
    ⟨fieldPrime, 3,
      [2, 3, 7, 13441, 205115282021455665897114700593932402728804164701536103180137503955397371]⟩]

def orderChain : List Lucas.Certificate :=
  [⟨4681609, 23, [2, 3, 97, 2011]⟩,
    ⟨107361793816595537, 3, [2, 16699, 85831, 4681609]⟩,
    ⟨44706919, 6, [2, 3, 797, 9349]⟩,
    ⟨174723607534414371449, 3, [2, 17, 59, 4051, 120233, 44706919]⟩,
    ⟨545358713, 5, [2, 41, 59, 28181]⟩,
    ⟨1627771, 3, [2, 3, 5, 29, 1871]⟩,
    ⟨297159362677, 2, [2, 3, 11, 461, 1627771]⟩,
    ⟨29047611873442575647497758179, 2, [2, 293, 305873, 545358713, 297159362677]⟩,
    ⟨341948486974166000522343609283189, 2, [2, 3, 109, 29047611873442575647497758179]⟩,
    ⟨groupOrder, 7,
      [2, 3, 149, 631, 107361793816595537, 174723607534414371449,
        341948486974166000522343609283189]⟩]

/-- **The field prime is prime.** -/
theorem prime_fieldPrime : fieldPrime.Prime :=
  Lucas.prime_of_checkAll fieldChain prime_of_mem_smallPrimes (by decide +kernel)
    fieldPrime (by simp [fieldChain])

/-- **The group order is prime.** -/
theorem prime_groupOrder : groupOrder.Prime :=
  Lucas.prime_of_checkAll orderChain prime_of_mem_smallPrimes (by decide +kernel)
    groupOrder (by simp [orderChain])

instance : Fact fieldPrime.Prime := ⟨prime_fieldPrime⟩

instance : Fact groupOrder.Prime := ⟨prime_groupOrder⟩

end Secp256k1
