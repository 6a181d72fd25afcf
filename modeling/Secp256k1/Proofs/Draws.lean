import Secp256k1.Proofs.Representations

/-!
What the samplers give, and what they read for it.

Whether a draw is good is a matter of the number that it spells. A sampler uses the first good
draw among as many as it may make, and reads nothing after it. A block that is good for a scalar
spells the scalar, and no other block does, so that no scalar is favoured.
-/

namespace Secp256k1

namespace Engine

variable {σ ω α β γ : Type}

/-! ### The first good draw -/

section Good

variable (step : σ → Except Error α × σ) (good : α → Prop)

/-- So many draws are made, and none of them is good. -/
def NoneGood (m : ℕ) (source : σ) : Prop := ∀ i < m, ∃ a, drawn step i source = .ok a ∧ ¬good a

/-- The draw with the index `j` is made and is good, and all draws before it are made and are
not. -/
def FirstGood (j : ℕ) (a : α) (source : σ) : Prop :=
  NoneGood step good j source ∧ drawn step j source = .ok a ∧ good a

/-- What is accepted is what is good. -/
structure Accepts (accept : α → Option β) (value : α → β) : Prop where
  of_good : ∀ a, good a → accept a = some (value a)
  of_not_good : ∀ a, ¬good a → accept a = none

end Good

section Sampled

variable {step : σ → Except Error α × σ} {good : α → Prop} {accept : α → Option β} {value : α → β}
  {exhausted e : Error} {n m j : ℕ} {source : σ} {a : α} {b : β}

lemma Accepts.eq_some_iff (h : Accepts good accept value) :
    accept a = some b ↔ good a ∧ value a = b := by
  by_cases ha : good a
  · rw [h.of_good a ha, Option.some.injEq, and_iff_right ha]
  · rw [h.of_not_good a ha]
    exact iff_of_false (fun h => by cases h) fun h => ha h.1

lemma Accepts.eq_none_iff (h : Accepts good accept value) : accept a = none ↔ ¬good a := by
  by_cases ha : good a
  · rw [h.of_good a ha]
    exact iff_of_false (fun h => by cases h) (not_not_intro ha)
  · exact iff_of_true (h.of_not_good a ha) ha

lemma Accepts.forall_rejects_iff (h : Accepts good accept value) :
    (∀ i < m, Rejects step accept i source) ↔ NoneGood step good m source := by
  unfold Rejects NoneGood
  simp only [h.eq_none_iff]

lemma FirstGood.sampled (hf : FirstGood step good j a source) (h : Accepts good accept value)
    (hj : j < n) :
    Sampled step accept exhausted n source (.ok (value a), after step (j + 1) source) :=
  .accepted j hj (h.forall_rejects_iff.mpr hf.1) a (value a) hf.2.1 (h.of_good a hf.2.2)

lemma NoneGood.sampled_refused (hn : NoneGood step good j source)
    (h : Accepts good accept value) (hj : j < n) (he : drawn step j source = .error e) :
    Sampled step accept exhausted n source (.error e, after step (j + 1) source) :=
  .refused j hj (h.forall_rejects_iff.mpr hn) e he

lemma NoneGood.sampled_exhausted (hn : NoneGood step good n source)
    (h : Accepts good accept value) :
    Sampled step accept exhausted n source (.error exhausted, after step n source) :=
  .exhausted (h.forall_rejects_iff.mpr hn)

lemma Sampled.ok_iff_firstGood {r : Except Error β × σ}
    (hr : Sampled step accept exhausted n source r) (h : Accepts good accept value) :
    r.1 = .ok b ↔ ∃ j < n, ∃ a, FirstGood step good j a source ∧ value a = b := by
  simp only [hr.ok_iff, h.forall_rejects_iff, h.eq_some_iff, FirstGood, ← exists_and_left,
    and_assoc]

/-- The draws of a good one and of those before it are made. -/
lemma FirstGood.forall_drawn (hf : FirstGood step good j a source) :
    ∀ i < j + 1, ∃ a, drawn step i source = .ok a := by
  intro i hi
  rcases Nat.lt_succ_iff_lt_or_eq.mp hi with hlt | rfl
  · exact (hf.1 i hlt).imp fun _ h => h.1
  · exact ⟨a, hf.2.1⟩

lemma NoneGood.forall_drawn (hn : NoneGood step good m source) :
    ∀ i < m, ∃ a, drawn step i source = .ok a := fun i hi => (hn i hi).imp fun _ h => h.1

/-- What is done with the result may be done with each draw that is accepted. -/
lemma andThen_sampleStep_give (f : β → γ) (n : ℕ) (source : σ) :
    andThen (sampleStep step accept exhausted n) (fun b => give (f b)) source =
      sampleStep step (fun a => (accept a).map f) exhausted n source := by
  unfold andThen
  induction n generalizing source with
  | zero => rfl
  | succ n ih =>
    unfold sampleStep
    rcases step source with ⟨e | a, rest⟩
    · rfl
    · dsimp only
      rcases accept a with _ | b
      · exact ih rest
      · rfl

end Sampled

/-! ### What a draw takes -/

variable [RandomSource σ]

/-- A count of the bytes that a source has given; a word has eight. -/
structure IsMeter (taken : σ → ℕ) : Prop where
  bytes : ∀ n source b, (RandomSource.bytes n source).1 = some b →
    taken (RandomSource.bytes n source).2 = taken source + n
  word : ∀ source, taken (RandomSource.word source).2 = taken source + 8

/-- Every draw that is made takes `size` bytes. -/
def Takes (size : ℕ) (step : σ → Except Error α × σ) : Prop :=
  ∀ taken : σ → ℕ, IsMeter taken → ∀ source a, (step source).1 = .ok a →
    taken (step source).2 = taken source + size

omit [RandomSource σ] in
lemma blockStep_eq_ok_iff [RandomSource σ] {n : ℕ} {source : σ} {b : Vector UInt8 n} :
    (blockStep n source).1 = .ok b ↔ (RandomSource.bytes n source).1 = some b := by
  unfold blockStep
  rcases (RandomSource.bytes n source).1 with _ | c
  · exact iff_of_false (fun h => by cases h) fun h => by cases h
  · simp

lemma takes_blockStep (n : ℕ) : Takes n (blockStep n : σ → Except Error (Vector UInt8 n) × σ) :=
  fun _ ht source b hb => ht.bytes n source b (blockStep_eq_ok_iff.mp hb)

lemma takes_wordStep : Takes 8 (wordStep : σ → Except Error UInt64 × σ) :=
  fun _ ht source _ _ => ht.word source

omit [RandomSource σ] in
/-- The last draw comes after all the others. -/
lemma after_succ (step : σ → Except Error α × σ) (m : ℕ) (source : σ) :
    after step (m + 1) source = (step (after step m source)).2 :=
  Function.iterate_succ_apply' _ m source

lemma Takes.after {step : σ → Except Error α × σ} {size m : ℕ} {source : σ} {taken : σ → ℕ}
    (h : Takes size step) (ht : IsMeter taken)
    (hmade : ∀ i < m, ∃ a, drawn step i source = .ok a) :
    taken (after step m source) = taken source + size * m := by
  induction m with
  | zero => rfl
  | succ m ih =>
    obtain ⟨a, ha⟩ := hmade m m.lt_succ_self
    rw [after_succ, h taken ht _ a ha, ih fun i hi => hmade i (Nat.lt_succ_of_lt hi), mul_add_one,
      add_assoc]

/-! ### Samplers -/

/-- The computation uses the first good draw among at most `n`, each of which takes `size` bytes,
and it fails if there is none. Nothing is drawn after the draw that decides, and apart from the
source nothing changes. -/
structure UsesFirst (size : ℕ) (step : σ → Except Error α × σ) (good : α → Prop) (value : α → β)
    (n : ℕ) (x : Engine σ ω β) : Prop where
  ok_iff : ∀ s b, (x.run s).1 = .ok b ↔
    ∃ j < n, ∃ a, FirstGood step good j a s.source ∧ value a = b
  fails : ∀ s, (¬∃ j < n, ∃ a, FirstGood step good j a s.source) →
    ∃ site why, (x.run s).1 = .error (.computationFailed site why)
  first : ∀ s, ∀ j < n, ∀ a, FirstGood step good j a s.source →
    (x.run s).2 = { s with source := after step (j + 1) s.source } ∧
      ∀ taken, IsMeter taken → taken (x.run s).2.source = taken s.source + size * (j + 1)
  refused : ∀ s, ∀ j < n, ∀ e, NoneGood step good j s.source → drawn step j s.source = .error e →
    (x.run s).2 = { s with source := after step (j + 1) s.source }
  exhausted : ∀ s, NoneGood step good n s.source →
    (x.run s).2 = { s with source := after step n s.source } ∧
      ∀ taken, IsMeter taken → taken (x.run s).2.source = taken s.source + size * n

/-- **Sampling uses the first good draw**, if what is accepted is what is good. -/
theorem DrawsBy.usesFirst {step : σ → Except Error α × σ} {accept : α → Option β}
    {good : α → Prop} {value : α → β} {n size : ℕ} {site why : String} {x : Engine σ ω β}
    (hx : DrawsBy x (sampleStep step accept (.computationFailed site why) n))
    (h : Accepts good accept value) (hstep : Curable step) (hsize : Takes size step) :
    UsesFirst size step good value n x := by
  have hok : ∀ s b, (x.run s).1 = .ok b ↔
      ∃ j < n, ∃ a, FirstGood step good j a s.source ∧ value a = b := by
    intro s b
    rw [hx s]
    exact (sampled_sampleStep n s.source).ok_iff_firstGood h
  refine ⟨hok, ?_, ?_, ?_, ?_⟩
  · intro s hs
    rcases hr : (x.run s).1 with e | b
    · rw [hx s] at hr
      obtain ⟨site, why, rfl⟩ := hstep.sampleStep n s.source e hr
      exact ⟨site, why, rfl⟩
    · obtain ⟨j, hj, a, ha, -⟩ := (hok s b).mp hr
      exact absurd ⟨j, hj, a, ha⟩ hs
  · intro s j hj a hf
    rw [hx s, ← (hf.sampled h hj).eq_sampleStep]
    exact ⟨rfl, fun taken ht => hsize.after ht hf.forall_drawn⟩
  · intro s j hj e hn he
    rw [hx s, ← (hn.sampled_refused h hj he).eq_sampleStep]
  · intro s hn
    rw [hx s, ← (hn.sampled_exhausted h).eq_sampleStep]
    exact ⟨rfl, fun taken ht => hsize.after ht hn.forall_drawn⟩

/-! ### Scalars, words and masks -/

/-- The block spells a scalar that is not zero. -/
def InRange (b : Vector UInt8 32) : Prop :=
  0 < bigEndian b.toList ∧ bigEndian b.toList < groupOrder

instance (b : Vector UInt8 32) : Decidable (InRange b) := inferInstanceAs (Decidable (_ ∧ _))

/-- The scalar that a block spells. -/
def scalarOf (b : Vector UInt8 32) : Scalar := ⟨U256.ofBytes b.toList, none, true⟩

/-- The residue that a block has modulo the field prime. -/
def residueOf (b : Vector UInt8 32) : FieldElement := .reduce (U256.ofBytes b.toList)

omit [RandomSource σ]

lemma toNat_ofBlock (b : Vector UInt8 32) : (U256.ofBytes b.toList).toNat = bigEndian b.toList :=
  U256.toNat_ofBytes (by simp)

lemma toNat_scalarOf (b : Vector UInt8 32) : (scalarOf b).value.toNat = bigEndian b.toList :=
  toNat_ofBlock b

lemma isCanonical_residueOf (b : Vector UInt8 32) : (residueOf b).IsCanonical :=
  FieldElement.isCanonical_reduce _

lemma toZMod_residueOf (b : Vector UInt8 32) :
    (residueOf b).toZMod = (bigEndian b.toList : Fp) := by
  have h := fieldModulus.toNat_reduce (U256.ofBytes b.toList)
  rw [toNat_fieldModulus, toNat_ofBlock] at h
  rw [FieldElement.toZMod, residueOf, FieldElement.reduce, h, ZMod.natCast_mod]

lemma isZero_residueOf_iff (b : Vector UInt8 32) :
    (residueOf b).isZero = true ↔ bigEndian b.toList % fieldPrime = 0 := by
  rw [FieldElement.isZero_iff (isCanonical_residueOf b), toZMod_residueOf,
    ZMod.natCast_eq_zero_iff, Nat.dvd_iff_mod_eq_zero]

lemma accepts_scalar :
    Accepts InRange (fun b => (Scalar.ofBytes b.toList).toOption) scalarOf := by
  have h : ∀ b : Vector UInt8 32, InRange b ↔ (!(U256.ofBytes b.toList).isZero &&
      orderModulus.contains (U256.ofBytes b.toList)) = true := by
    intro b
    rw [U256.nonzero_residue_iff, toNat_ofBlock, InRange]
  constructor
  · intro b hb
    rw [h, Bool.and_eq_true] at hb
    unfold Scalar.ofBytes Scalar.ofPrivateKey
    rw [hb.1, hb.2]
    rfl
  · intro b hb
    rw [h, Bool.and_eq_true, not_and_or, Bool.not_eq_true, Bool.not_eq_true] at hb
    unfold Scalar.ofBytes Scalar.ofPrivateKey
    rcases hb with hb | hb
    · rw [hb]
      rfl
    · rw [hb]
      cases (U256.ofBytes b.toList).isZero <;> rfl

lemma accepts_word : Accepts (· ≠ 0) (fun w : UInt64 => if w == 0 then none else some w) id := by
  constructor
  · intro w hw
    rw [if_neg (by simpa using hw)]
    rfl
  · intro w hw
    rw [if_pos (by simpa using hw)]

lemma accepts_mask (p : Point) :
    Accepts (fun b => bigEndian b.toList % fieldPrime ≠ 0) (fun b => (maskOf b).map p.rescale)
      fun b => p.rescale (residueOf b) := by
  have h : ∀ b, maskOf b = if (residueOf b).isZero then none else some (residueOf b) :=
    fun _ => rfl
  constructor
  · intro b hb
    rw [h, if_neg ((isZero_residueOf_iff b).not.mpr hb)]
    rfl
  · intro b hb
    rw [h, if_pos ((isZero_residueOf_iff b).mpr (not_not.mp hb))]
    rfl

variable [RandomSource σ]

lemma usesFirst_randomScalar (n : ℕ) :
    UsesFirst 32 (blockStep 32) InRange scalarOf n (randomScalar n : Engine σ ω Scalar) :=
  (drawsBy_randomScalar n).usesFirst accepts_scalar (curable_blockStep 32) (takes_blockStep 32)

lemma usesFirst_nonzeroWord (n : ℕ) :
    UsesFirst 8 wordStep (· ≠ 0) id n (nonzeroWord n : Engine σ ω UInt64) :=
  (drawsBy_nonzeroWord n).usesFirst accepts_word curable_wordStep takes_wordStep

lemma usesFirst_randomize {p : Point} (hp : p.isInfinity = false) :
    UsesFirst 32 (blockStep 32) (fun b => bigEndian b.toList % fieldPrime ≠ 0)
      (fun b => p.rescale (residueOf b)) 16 (p.randomize : Engine σ ω Point) := by
  have h : (randomizeStep p : σ → Except Error Point × σ) =
      sampleStep (blockStep 32) (fun b => (maskOf b).map p.rescale)
        (.computationFailed "randomize_point" "random generator produced no usable mask")
          maskAttempts := by
    funext source
    unfold randomizeStep
    rw [hp, if_neg Bool.false_ne_true]
    exact andThen_sampleStep_give p.rescale maskAttempts source
  have hd : DrawsBy (p.randomize : Engine σ ω Point) (randomizeStep p) := drawsBy_randomize p
  rw [h] at hd
  exact hd.usesFirst (accepts_mask p) (curable_blockStep 32) (takes_blockStep 32)

end Engine

/-- A mask that is not zero scales the triple of a finite point. -/
lemma Point.WellFormed.scaledBy_rescale {p : Point} (hp : p.WellFormed)
    (hi : p.isInfinity = false) {mask : FieldElement} (hm : mask.IsCanonical)
    (hm0 : mask.toZMod ≠ 0) :
    JacobianPoint.ScaledBy mask.toZMod (.ofPoint p) (.ofPoint (p.rescale mask)) := by
  rcases hp.rescale_cases hm with ⟨e, -⟩ | ⟨-, z, hz, hzm, e⟩
  · rw [e] at hi
    cases hi
  have hpz : p.z.toZMod ≠ 0 := by
    rcases hp.cases with e | e | ⟨-, hz0⟩
    · rw [e] at hi
      cases hi
    · rw [e]
      exact FieldElement.toZMod_one.trans_ne one_ne_zero
    · exact hz0
  have hz0 : z.isZero = false := by
    rw [isZero_eq_false_iff hz, hzm]
    exact mul_ne_zero hpz hm0
  have hq : JacobianPoint.ofPoint (p.rescale mask) =
      ⟨p.x * mask.square, p.y * (mask.square * mask), z⟩ := by
    rw [e, ofJacobian, hz0]
    rfl
  rw [hp.ofPoint_eq hi, hq]
  exact {
    left := ⟨hp.x_canonical, hp.y_canonical, hp.z_canonical⟩
    right := ⟨by simp, by simp, hz⟩
    ne_zero := hm0
    x := by simp
    y := by simp [pow_succ]
    z := hzm }

end Secp256k1
