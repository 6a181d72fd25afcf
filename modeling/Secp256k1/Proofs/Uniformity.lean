import Mathlib.Logic.Equiv.Basic
import Mathlib.SetTheory.Cardinal.Finite
import Secp256k1.Engine.Tape
import Secp256k1.Proofs.Draws

/-!
No scalar is favoured.

A scalar comes from one block, and the sampler asks of a block only whether it spells a scalar. So
exchanging the blocks of two scalars, wherever they occur in a byte string, exchanges the scalars
that are drawn, and as many byte strings give the one as the other.
-/

namespace Secp256k1

open Engine

variable {n j k l : ℕ}

/-- Every number has one block. -/
lemma existsUnique_block (hk : k < 2 ^ 256) : ∃! b : Vector UInt8 32, bigEndian b.toList = k := by
  have h : bigEndian (U256.ofNat k).toBytes.toList = k := by
    rw [U256.bigEndian_toBytes, U256.toNat_ofNat hk]
  refine ⟨(U256.ofNat k).toBytes, h, fun b hb => ?_⟩
  exact Vector.toList_inj.mp (U256.bigEndian_inj (by simp) (hb.trans h.symm))

/-! ### Blocks of a byte string -/

/-- The block with the index `j`. -/
def blockOf (content : Vector UInt8 (32 * n)) (j : ℕ) : Vector UInt8 32 :=
  Vector.ofFn fun i => content.toArray.getD (32 * j + i) 0

/-- The byte string with each of its blocks changed. -/
def mapBlocks (f : Vector UInt8 32 → Vector UInt8 32) (content : Vector UInt8 (32 * n)) :
    Vector UInt8 (32 * n) :=
  Vector.ofFn fun i => (f (blockOf content (i / 32)))[i.val % 32]

section Blocks

variable {f g : Vector UInt8 32 → Vector UInt8 32} (content : Vector UInt8 (32 * n))

lemma blockOf_mapBlocks (hj : j < n) :
    blockOf (mapBlocks f content) j = f (blockOf content j) := by
  ext i hi
  have hlt : 32 * j + i < 32 * n := by omega
  have hdiv : (32 * j + i) / 32 = j := by omega
  have hmod : (32 * j + i) % 32 = i := by omega
  simp [blockOf, mapBlocks, hlt, hdiv, hmod]

lemma getElem_blockOf {i : ℕ} (hi : i < 32 * n) :
    (blockOf content (i / 32))[i % 32] = content[i] := by
  have hdiv : 32 * (i / 32) + i % 32 = i := Nat.div_add_mod i 32
  simp [blockOf, hdiv, hi]

lemma getElem_mapBlocks {i : ℕ} (hi : i < 32 * n) :
    (mapBlocks f content)[i] = (f (blockOf content (i / 32)))[i % 32] := by
  simp [mapBlocks]

lemma mapBlocks_mapBlocks (h : ∀ b, f (g b) = b) : mapBlocks f (mapBlocks g content) = content := by
  ext i hi
  have hj : i / 32 < n := by omega
  rw [getElem_mapBlocks, blockOf_mapBlocks content hj, h, getElem_blockOf]

end Blocks

/-- Changing the blocks one to one changes the byte strings one to one. -/
def mapBlocksEquiv (e : Equiv.Perm (Vector UInt8 32)) : Equiv.Perm (Vector UInt8 (32 * n)) where
  toFun := mapBlocks e
  invFun := mapBlocks e.symm
  left_inv content := mapBlocks_mapBlocks content e.symm_apply_apply
  right_inv content := mapBlocks_mapBlocks content e.apply_symm_apply

/-! ### Drawing from a byte string -/

variable (content : Vector UInt8 (32 * n))

/-- The tape that has the byte string and nothing after it, with so many bytes taken. -/
def playing (position : ℕ) : Tape := ⟨content.toArray, .fail, position⟩

lemma blockStep_playing (hj : j < n) :
    blockStep 32 (playing content (32 * j)) =
      (.ok (blockOf content j), playing content (32 * (j + 1))) := by
  have hhas : (playing content (32 * j)).has 32 = true := by
    simp only [Tape.has, playing, Vector.size_toArray, decide_eq_true_eq]
    omega
  have hbytes : RandomSource.bytes 32 (playing content (32 * j)) =
      (some (blockOf content j), playing content (32 * (j + 1))) := by
    simp only [RandomSource.bytes, hhas]
    rfl
  rw [blockStep, hbytes]

lemma after_playing {m : ℕ} (hm : m ≤ n) :
    after (blockStep 32) m (playing content 0) = playing content (32 * m) := by
  induction m with
  | zero => rfl
  | succ m ih =>
    rw [after_succ, ih (by omega), blockStep_playing content hm]

lemma drawn_playing (hj : j < n) :
    drawn (blockStep 32) j (playing content 0) = .ok (blockOf content j) := by
  rw [drawn, after_playing content hj.le, blockStep_playing content hj]

lemma firstGood_playing_iff (hj : j < n) {b : Vector UInt8 32} :
    FirstGood (blockStep 32) InRange j b (playing content 0) ↔
      (∀ i < j, ¬InRange (blockOf content i)) ∧ blockOf content j = b ∧ InRange b := by
  unfold FirstGood NoneGood
  rw [drawn_playing content hj, Except.ok.injEq]
  refine and_congr_left' (forall₂_congr fun i hi => ?_)
  rw [drawn_playing content (hi.trans hj)]
  simp

/-- The scalar `k` is drawn from the byte string, if all of it may be used. -/
def Gives (k : ℕ) : Prop :=
  ∃ d, ((randomScalar n).run (⟨playing content 0, [], ()⟩ : State Tape Unit)).1 = .ok d ∧
    d.value.toNat = k

lemma gives_iff : Gives content k ↔ ∃ j < n, (∀ i < j, ¬InRange (blockOf content i)) ∧
    InRange (blockOf content j) ∧ bigEndian (blockOf content j).toList = k := by
  unfold Gives
  simp only [(usesFirst_randomScalar n).ok_iff]
  constructor
  · rintro ⟨d, ⟨j, hj, b, hb, rfl⟩, rfl⟩
    rw [toNat_scalarOf]
    obtain ⟨hnone, rfl, hgood⟩ := (firstGood_playing_iff content hj).mp hb
    exact ⟨j, hj, hnone, hgood, rfl⟩
  · rintro ⟨j, hj, hnone, hgood, rfl⟩
    refine ⟨scalarOf (blockOf content j), ⟨j, hj, blockOf content j, ?_, rfl⟩, toNat_scalarOf _⟩
    exact (firstGood_playing_iff content hj).mpr ⟨hnone, rfl, hgood⟩

/-- Exchanging two scalars in all blocks exchanges them in what is drawn. -/
lemma gives_mapBlocks_iff {f : Vector UInt8 32 → Vector UInt8 32}
    (hrange : ∀ b, InRange (f b) ↔ InRange b)
    (hvalue : ∀ b, bigEndian (f b).toList = l ↔ bigEndian b.toList = k) :
    Gives (mapBlocks f content) l ↔ Gives content k := by
  rw [gives_iff, gives_iff]
  refine exists_congr fun j => and_congr_right fun hj => ?_
  rw [blockOf_mapBlocks content hj, hrange, hvalue]
  refine and_congr_left' (forall₂_congr fun i hi => ?_)
  rw [blockOf_mapBlocks content (hi.trans hj), hrange]

/-- The blocks of two scalars can be exchanged. -/
lemma exists_exchange (hk : 0 < k ∧ k < groupOrder) (hl : 0 < l ∧ l < groupOrder) :
    ∃ e : Equiv.Perm (Vector UInt8 32), (∀ b, InRange (e b) ↔ InRange b) ∧
      ∀ b, bigEndian (e b).toList = l ↔ bigEndian b.toList = k := by
  have hn : groupOrder < 2 ^ 256 := by decide
  obtain ⟨a, ha, haunique⟩ := existsUnique_block (hk.2.trans hn)
  obtain ⟨c, hc, hcunique⟩ := existsUnique_block (hl.2.trans hn)
  have hain : InRange a := by rwa [InRange, ha]
  have hcin : InRange c := by rwa [InRange, hc]
  refine ⟨Equiv.swap a c, ?_, ?_⟩
  · intro b
    rw [Equiv.swap_apply_def]
    split_ifs with h h'
    · rw [h]
      exact iff_of_true hcin hain
    · rw [h']
      exact iff_of_true hain hcin
    · rfl
  · intro b
    have hleft : bigEndian (Equiv.swap a c b).toList = l ↔ Equiv.swap a c b = c :=
      ⟨hcunique _, fun h => by rw [h, hc]⟩
    have hright : bigEndian b.toList = k ↔ b = a := ⟨haunique _, fun h => by rw [h, ha]⟩
    rw [hleft, hright, Equiv.swap_apply_eq_iff, Equiv.swap_apply_right]

/-- **As many byte strings give one scalar as another.** -/
theorem card_gives_eq (n : ℕ) (hk : 0 < k ∧ k < groupOrder) (hl : 0 < l ∧ l < groupOrder) :
    Nat.card { content : Vector UInt8 (32 * n) // Gives content k } =
      Nat.card { content : Vector UInt8 (32 * n) // Gives content l } := by
  obtain ⟨e, hrange, hvalue⟩ := exists_exchange hk hl
  refine Nat.card_congr ((mapBlocksEquiv e).subtypeEquiv fun content => ?_)
  exact (gives_mapBlocks_iff content hrange hvalue).symm

/-! ### All samplers -/

/-- The position of a tape counts the bytes that it has given. -/
lemma Tape.isMeter_position : IsMeter Tape.position where
  bytes n t b h := by
    simp only [RandomSource.bytes] at h ⊢
    split at h
    · cases h
    · rename_i hhas
      rw [if_neg hhas]
      rfl
  word _ := rfl

/-- **Samplers use the first good draw.** They take what they have to look at and nothing more.
They favour no scalar, since every scalar is spelled by one block. A point at infinity is not
rescaled. -/
theorem samplers_use_first_good_draw {σ ω : Type} [RandomSource σ] (n : ℕ) :
    UsesFirst 32 (blockStep 32) InRange scalarOf n (randomScalar n : Engine σ ω Scalar) ∧
    UsesFirst 8 wordStep (· ≠ 0) id n (nonzeroWord n : Engine σ ω UInt64) ∧
    (∀ p : Point,
      (p.isInfinity = true → ∀ s : State σ ω, p.randomize.run s = (.ok p, s)) ∧
      (p.isInfinity = false →
        UsesFirst 32 (blockStep 32) (fun b => bigEndian b.toList % fieldPrime ≠ 0)
            (fun b => p.rescale (residueOf b)) 16 (p.randomize : Engine σ ω Point) ∧
        (p.WellFormed → ∀ b : Vector UInt8 32, bigEndian b.toList % fieldPrime ≠ 0 →
          JacobianPoint.ScaledBy (bigEndian b.toList : Fp) (.ofPoint p)
            (.ofPoint (p.rescale (residueOf b)))))) ∧
    (∀ b, (scalarOf b).value.toNat = bigEndian b.toList) ∧
    (∀ k, 0 < k ∧ k < groupOrder → ∃! b, InRange b ∧ (scalarOf b).value.toNat = k) ∧
    ∀ k l, 0 < k ∧ k < groupOrder → 0 < l ∧ l < groupOrder →
      Nat.card { content : Vector UInt8 (32 * n) // Gives content k } =
        Nat.card { content : Vector UInt8 (32 * n) // Gives content l } := by
  refine ⟨usesFirst_randomScalar n, usesFirst_nonzeroWord n, fun p => ⟨?_, ?_⟩, toNat_scalarOf, ?_,
    fun k l => card_gives_eq n⟩
  · intro hp s
    unfold Point.randomize
    rw [hp]
    rfl
  · intro hp
    refine ⟨usesFirst_randomize hp, fun hwf b hb => ?_⟩
    rw [← toZMod_residueOf]
    refine hwf.scaledBy_rescale hp (isCanonical_residueOf b) ?_
    rwa [toZMod_residueOf, Ne, ZMod.natCast_eq_zero_iff, Nat.dvd_iff_mod_eq_zero]
  · intro k hk
    obtain ⟨b, hb, hunique⟩ := existsUnique_block (hk.2.trans (by decide : groupOrder < 2 ^ 256))
    simp only [toNat_scalarOf]
    exact ⟨b, ⟨by rwa [InRange, hb], hb⟩, fun c hc => hunique c hc.2⟩

/-- The first block is zero, and the second one spells 1. -/
theorem second_block_used :
    let s : State Tape Unit := ⟨⟨(U256.zero.toBytes ++ U256.one.toBytes).toArray, .fail, 0⟩, [], ()⟩
    ((randomScalar 2).run s).1 = .ok ⟨.one, none, true⟩ ∧
      ((randomScalar 2).run s).2.source.position = 64 := by
  intro s
  let content : Vector UInt8 (32 * 2) := U256.zero.toBytes ++ U256.one.toBytes
  have hzero : blockOf content 0 = U256.zero.toBytes := by decide +kernel
  have hone : blockOf content 1 = U256.one.toBytes := by decide +kernel
  have hfirst : FirstGood (blockStep 32) InRange 1 U256.one.toBytes s.source := by
    refine (firstGood_playing_iff content (by decide)).mpr ⟨?_, hone, by decide +kernel⟩
    intro i hi
    obtain rfl := Nat.lt_one_iff.mp hi
    rw [hzero]
    decide +kernel
  have hscalar := (samplers_use_first_good_draw (σ := Tape) (ω := Unit) 2).1
  have hvalue : scalarOf U256.one.toBytes = ⟨.one, none, true⟩ := by
    rw [scalarOf, U256.ofBytes_toBytes]
  refine ⟨(hscalar.ok_iff s _).mpr ⟨1, by decide, _, hfirst, hvalue⟩, ?_⟩
  exact (hscalar.first s 1 (by decide) _ hfirst).2 _ Tape.isMeter_position

end Secp256k1
