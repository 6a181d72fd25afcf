import Mathlib.Data.List.Induction
import Mathlib.Data.List.OfFn
import Mathlib.Data.Nat.Digits.Defs
import Secp256k1.Proofs.Integers
import Secp256k1.U256.Codec

/-!
Integers as big-endian bytes.

Reading 32 bytes and writing 32 bytes are inverse to each other.
-/

namespace Secp256k1

/-- The number that bytes stand for, the most significant one first. -/
def bigEndian (bytes : List UInt8) : ℕ := bytes.foldl (fun a b => 256 * a + b.toNat) 0

namespace U256

lemma toNat_appendDigit {b d : UInt64} {a : U256} (h : b.toNat * a.toNat + d.toNat < 2 ^ 256) :
    (appendDigit b a d).toNat = b.toNat * a.toNat + d.toNat := by
  have hr := toNat_mulRow b a (ofWord d)
  rw [toNat_ofWord, size_eq] at hr
  unfold appendDigit
  omega

/-- Digits in the base `b`, the most significant one first, give the number that they denote if
so many digits have room in 256 bits. -/
theorem toNat_appendDigits {b : UInt64} {ds : List UInt8} (hds : ∀ d ∈ ds, d.toNat < b.toNat)
    (hb : 1 < b.toNat) (hlen : b.toNat ^ ds.length ≤ 2 ^ 256) :
    (ds.foldl (fun a d => appendDigit b a d.toUInt64) zero).toNat =
      Nat.ofDigits b.toNat (ds.reverse.map UInt8.toNat) := by
  induction ds using List.reverseRecOn with
  | nil => rfl
  | append_singleton ds d ih =>
    rw [List.length_append, List.length_singleton, pow_succ] at hlen
    have hd : d.toNat < b.toNat := hds d (by simp)
    have hds : ∀ e ∈ ds, e.toNat < b.toNat := fun e he => hds e (by simp [he])
    have ih := ih hds ((Nat.le_mul_of_pos_right _ (by omega)).trans hlen)
    have hlt : Nat.ofDigits b.toNat (ds.reverse.map UInt8.toNat) < b.toNat ^ ds.length := by
      rw [← List.length_reverse, ← List.length_map UInt8.toNat]
      refine Nat.ofDigits_lt_base_pow_length hb ?_
      simpa using hds
    rw [List.foldl_append, List.foldl_cons, List.foldl_nil, List.reverse_append,
      List.reverse_singleton, List.singleton_append, List.map_cons, Nat.ofDigits_cons]
    generalize Nat.ofDigits b.toNat (ds.reverse.map UInt8.toNat) = n at ih hlt ⊢
    have hroom : b.toNat * n + d.toNat < 2 ^ 256 := by
      calc b.toNat * n + d.toNat < b.toNat * (n + 1) := by rw [Nat.mul_succ]; omega
        _ ≤ b.toNat * b.toNat ^ ds.length := Nat.mul_le_mul_left _ hlt
        _ ≤ 2 ^ 256 := by rwa [Nat.mul_comm]
    rw [toNat_appendDigit (by rw [ih]; exact hroom), ih]
    exact Nat.add_comm ..

lemma bigEndian_append_singleton (bytes : List UInt8) (b : UInt8) :
    bigEndian (bytes ++ [b]) = 256 * bigEndian bytes + b.toNat := by
  simp [bigEndian]

lemma bigEndian_eq_ofDigits (bytes : List UInt8) :
    bigEndian bytes = Nat.ofDigits 256 (bytes.reverse.map UInt8.toNat) := by
  induction bytes using List.reverseRecOn with
  | nil => rfl
  | append_singleton bytes b ih =>
    rw [bigEndian_append_singleton, List.reverse_append, List.reverse_singleton,
      List.singleton_append, List.map_cons, Nat.ofDigits_cons, ih, Nat.add_comm]

/-- **Reading bytes** gives the number that they stand for. -/
theorem toNat_ofBytes {bytes : List UInt8} (h : bytes.length ≤ 32) :
    (ofBytes bytes).toNat = bigEndian bytes := by
  have hle : 256 ^ bytes.length ≤ 256 ^ 32 := Nat.pow_le_pow_right (by norm_num) h
  rw [bigEndian_eq_ofDigits]
  exact toNat_appendDigits (fun b _ => b.toNat_lt) (by decide) (hle.trans_eq (by norm_num))

/-- The digits of a number to the base 256 stand for the number. -/
lemma bigEndian_ofFn {m : ℕ} (f : Fin m → UInt8) (a : ℕ)
    (h : ∀ i : Fin m, (f i).toNat = a / 256 ^ (m - 1 - i) % 256) :
    bigEndian (List.ofFn f) = a % 256 ^ m := by
  induction m generalizing a with
  | zero => simp [bigEndian, Nat.mod_one]
  | succ m ih =>
    have hlast := h (Fin.last m)
    have hinit : bigEndian (List.ofFn fun i : Fin m => f i.castSucc) = a / 256 % 256 ^ m := by
      apply ih
      intro i
      have hi := i.isLt
      have he : m + 1 - 1 - (i.castSucc : ℕ) = (m - 1 - i) + 1 := by
        rw [Fin.val_castSucc]
        omega
      rw [h, he, pow_succ', Nat.div_div_eq_div_mul]
    rw [Fin.val_last, Nat.add_sub_cancel, Nat.sub_self, pow_zero, Nat.div_one] at hlast
    rw [List.ofFn_succ', List.concat_eq_append, bigEndian_append_singleton, hinit, hlast,
      pow_succ', Nat.mod_mul]
    omega

lemma toNat_toBytes (a : U256) (i : Fin 32) :
    (Word.byte (a.word (3 - i.val / 8)) (7 - i.val % 8)).toNat =
      a.toNat / 256 ^ (31 - i.val) % 256 := by
  have hi := i.isLt
  obtain ⟨j, hj⟩ : ∃ j, j = 3 - i.val / 8 := ⟨_, rfl⟩
  obtain ⟨k, hk⟩ : ∃ k, k = 7 - i.val % 8 := ⟨_, rfl⟩
  have hjk : 31 - i.val = 8 * j + k := by omega
  have hword : (2 : ℕ) ^ 64 = 256 ^ k * (256 * 256 ^ (7 - k)) := by
    rw [← pow_succ', ← pow_add]
    have he : k + (7 - k + 1) = 8 := by omega
    rw [he]
    norm_num
  rw [← hj, ← hk, hjk, Word.toNat_byte _ (by omega), toNat_word a (by omega), hword,
    Nat.mod_mul_right_div_self, Nat.mod_mul_right_mod, ← hword, Nat.div_div_eq_div_mul, pow_add,
    pow_mul]
  norm_num

/-- **Writing bytes and reading them back** gives the number again. -/
theorem ofBytes_toBytes (a : U256) : ofBytes a.toBytes.toList = a := by
  apply toNat_inj
  rw [toNat_ofBytes (by simp), toBytes, Vector.toList_ofFn, bigEndian_ofFn _ a.toNat]
  · exact Nat.mod_eq_of_lt (a.toNat_lt_two_pow.trans_eq (by norm_num))
  · exact a.toNat_toBytes

lemma bigEndian_toBytes (a : U256) : bigEndian a.toBytes.toList = a.toNat := by
  rw [← toNat_ofBytes (by simp), ofBytes_toBytes]

/-- Byte strings of one length that stand for one number are equal. -/
lemma bigEndian_inj {bytes bytes' : List UInt8} (hlen : bytes.length = bytes'.length)
    (h : bigEndian bytes = bigEndian bytes') : bytes = bytes' := by
  induction bytes using List.reverseRecOn generalizing bytes' with
  | nil => simpa using hlen.symm
  | append_singleton bytes b ih =>
    rcases List.eq_nil_or_concat bytes' with rfl | ⟨bytes', b', rfl⟩
    · simp at hlen
    · rw [List.concat_eq_append] at hlen h ⊢
      simp only [bigEndian_append_singleton] at h
      have hb := b.toNat_lt
      have hb' := b'.toNat_lt
      have hhead : bytes = bytes' := ih (by simpa using hlen) (by omega)
      have hlast : b = b' := UInt8.toNat_inj.mp (by omega)
      rw [hhead, hlast]

/-- **Reading 32 bytes and writing them back** gives the bytes again. -/
theorem toBytes_ofBytes {bytes : List UInt8} (h : bytes.length = 32) :
    (ofBytes bytes).toBytes.toList = bytes := by
  have hlen : (ofBytes bytes).toBytes.toList.length = bytes.length := by simp [h]
  have hval := congrArg toNat (ofBytes_toBytes (ofBytes bytes))
  rw [toNat_ofBytes (by simp), toNat_ofBytes h.le] at hval
  exact bigEndian_inj hlen hval

end U256

end Secp256k1
