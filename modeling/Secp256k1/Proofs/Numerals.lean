import Mathlib.Data.List.Forall2
import Mathlib.Data.Nat.Digits.Lemmas
import Secp256k1.Proofs.Bytes

/-!
Hexadecimal numerals.

A numeral is at most one mark and 1 to 64 digits of either case, as characters. The reader looks
at the bytes of a text instead; digits and marks are one byte each, so that the numerals are what
it takes, and it gives the numbers that they denote. Every other text is refused for its length in
bytes or for its first byte that is no digit.
-/

namespace Secp256k1

/-! ### The bytes of a text -/

lemma toList_loop (bytes : ByteArray) (i : ℕ) (acc : List UInt8) :
    ByteArray.toList.loop bytes i acc = acc.reverse ++ bytes.data.toList.drop i := by
  fun_induction ByteArray.toList.loop bytes i acc with
  | case1 i acc hlt ih =>
    have hlt' : i < bytes.data.toList.length := by simpa using hlt
    have hget : bytes.get! i = bytes.data.toList[i] := by
      rw [ByteArray.get!, Array.getElem_toList]
      exact getElem!_pos bytes.data i hlt
    rw [ih, List.drop_eq_getElem_cons hlt', hget, List.reverse_cons, List.append_assoc]
    rfl
  | case2 i acc hlt =>
    rw [List.drop_eq_nil_of_le (by simpa using hlt), List.append_nil]

lemma toList_eq_data (bytes : ByteArray) : bytes.toList = bytes.data.toList := by
  rw [ByteArray.toList, toList_loop]
  rfl

/-- The bytes of a text are those of its characters. -/
lemma toList_toUTF8 (text : String) :
    text.toUTF8.toList = text.toList.flatMap String.utf8EncodeChar := by
  rw [toList_eq_data, String.toUTF8_eq_toByteArray, ← String.utf8Encode_toList]
  exact List.toList_data_toByteArray

/-- Texts of the same bytes are equal. -/
lemma eq_of_toUTF8 {text text' : String} (h : text.toUTF8.toList = text'.toUTF8.toList) :
    text = text' := by
  rw [toList_eq_data, toList_eq_data, Array.toList_inj] at h
  exact String.toByteArray_inj.mp (ByteArray.ext h)

namespace Hex

/-! ### Digits -/

/-- A character is a digit, of either case, for a number below 16. -/
def StandsFor (c : Char) (d : ℕ) : Prop :=
  "0123456789ABCDEF".toList[d]? = some c ∨ "0123456789abcdef".toList[d]? = some c

instance (c : Char) (d : ℕ) : Decidable (StandsFor c d) := instDecidableOr

lemma StandsFor.lt {c : Char} {d : ℕ} (h : StandsFor c d) : d < 16 := by
  rcases h with h | h <;> exact (List.getElem?_eq_some_iff.mp h).1

/-- A digit is one byte, and the byte is read as what the digit stands for. -/
lemma StandsFor.byte {c : Char} {d : ℕ} (h : StandsFor c d) :
    String.utf8EncodeChar c = [c.toUInt8] ∧ digit? c.toUInt8 = some d.toUInt8 := by
  -- The digits are named by position: a quantifier over characters would try all of them.
  have hall : ∀ digits ∈ ["0123456789ABCDEF", "0123456789abcdef"], ∀ d < 16,
      String.utf8EncodeChar (digits.toList[d]?.getD '0') = [(digits.toList[d]?.getD '0').toUInt8] ∧
        digit? (digits.toList[d]?.getD '0').toUInt8 = some d.toUInt8 := by
    decide
  have hlt := h.lt
  rcases h with h | h
  · have hdigit := hall "0123456789ABCDEF" (by simp) d hlt
    rwa [h] at hdigit
  · have hdigit := hall "0123456789abcdef" (by simp) d hlt
    rwa [h] at hdigit

/-- Every byte that is read as a digit is one. -/
lemma exists_standsFor {b v : UInt8} (h : digit? b = some v) :
    ∃ c, StandsFor c v.toNat ∧ String.utf8EncodeChar c = [b] := by
  have hall : ∀ n < 256, ∀ v ∈ digit? (UInt8.ofNat n), StandsFor (Char.ofNat n) v.toNat ∧
      String.utf8EncodeChar (Char.ofNat n) = [UInt8.ofNat n] := by decide +kernel
  have hb := hall b.toNat b.toNat_lt v
  rw [UInt8.ofNat_toNat] at hb
  exact ⟨_, hb h⟩

/-- Characters are digits for so many numbers. -/
abbrev Spell (cs : List Char) (ds : List ℕ) : Prop := List.Forall₂ StandsFor cs ds

/-- Bytes are read as digits for so many numbers. -/
abbrev Read (bytes vs : List UInt8) : Prop := List.Forall₂ (fun b v => digit? b = some v) bytes vs

lemma digits_eq_ok_iff {position : ℕ} {bytes vs : List UInt8} :
    digits position bytes = .ok vs ↔ Read bytes vs := by
  induction bytes generalizing position vs with
  | nil => simp [digits, eq_comm]
  | cons b bytes ih =>
    rw [digits, Read, List.forall₂_cons_left_iff]
    cases hb : digit? b with
    | none => simp
    | some v =>
      have ih' := @ih (position + 1)
      cases hds : digits (position + 1) bytes with
      | error e =>
        rw [hds] at ih'
        refine ⟨nofun, ?_⟩
        rintro ⟨-, us, -, hus, -⟩
        cases ih'.mpr hus
      | ok us =>
        rw [hds] at ih'
        constructor
        · intro h
          exact ⟨v, us, rfl, ih'.mp rfl, (Except.ok.inj h).symm⟩
        · rintro ⟨v', us', hv', hus', rfl⟩
          rw [Option.some.inj hv', ← Except.ok.inj (ih'.mpr hus')]
          rfl

/-- Digits up to a byte that is none. -/
lemma digits_eq_error (position : ℕ) {good : List UInt8} {b : UInt8} (rest : List UInt8)
    (hgood : ∀ g ∈ good, (digit? g).isSome) (hb : digit? b = none) :
    digits position (good ++ b :: rest) = .error (b, position + good.length) := by
  induction good generalizing position with
  | nil => simp [digits, hb]
  | cons g good ih =>
    obtain ⟨v, hv⟩ := Option.isSome_iff_exists.mp (hgood g (by simp))
    rw [List.cons_append, digits, hv, ih _ fun g' hg' => hgood g' (by simp [hg']),
      List.length_cons, Nat.add_right_comm, Nat.add_assoc]
    rfl

/-- A text that is not all digits has a first byte that is none. -/
lemma exists_stray {position : ℕ} {bytes : List UInt8} {e : UInt8 × ℕ}
    (h : digits position bytes = .error e) : ∃ good b rest, bytes = good ++ b :: rest ∧
      (∀ g ∈ good, (digit? g).isSome) ∧ digit? b = none := by
  induction bytes generalizing position e with
  | nil => cases h
  | cons b bytes ih =>
    cases hb : digit? b with
    | none => exact ⟨[], b, bytes, rfl, by simp, hb⟩
    | some v =>
      rw [digits, hb] at h
      cases hds : digits (position + 1) bytes with
      | ok vs =>
        rw [hds] at h
        cases h
      | error e' =>
        obtain ⟨good, b', rest, rfl, hgood, hb'⟩ := ih hds
        refine ⟨b :: good, b', rest, rfl, ?_, hb'⟩
        simpa [hb] using hgood

/-- Digits as characters are digits as bytes. -/
lemma Spell.bytes {cs : List Char} {ds : List ℕ} (h : Spell cs ds) :
    cs.flatMap String.utf8EncodeChar = cs.map Char.toUInt8 ∧
      Read (cs.map Char.toUInt8) (ds.map fun d => d.toUInt8) := by
  induction h with
  | nil => exact ⟨rfl, .nil⟩
  | cons hd _ ih =>
    obtain ⟨henc, hread⟩ := hd.byte
    exact ⟨by rw [List.flatMap_cons, henc, ih.1]; rfl, .cons hread ih.2⟩

/-- Digits as bytes are digits as characters. -/
lemma Read.exists_spell {bytes vs : List UInt8} (h : Read bytes vs) :
    ∃ cs, Spell cs (vs.map UInt8.toNat) ∧ cs.flatMap String.utf8EncodeChar = bytes := by
  induction h with
  | nil => exact ⟨[], .nil, rfl⟩
  | cons hb _ ih =>
    obtain ⟨c, hc, henc⟩ := exists_standsFor hb
    obtain ⟨cs, hcs, hbytes⟩ := ih
    exact ⟨c :: cs, .cons hc hcs, by rw [List.flatMap_cons, henc, hbytes]; rfl⟩

lemma Spell.toNat_toUInt8 {cs : List Char} {ds : List ℕ} (h : Spell cs ds) :
    (ds.map fun d => d.toUInt8).map UInt8.toNat = ds := by
  induction h with
  | nil => rfl
  | @cons _ d _ _ hd _ ih =>
    have hlt : d < UInt8.size := hd.lt.trans (by decide)
    rw [List.map_cons, List.map_cons, ih, Nat.toUInt8_eq, UInt8.toNat_ofNat_of_lt' hlt]

lemma Read.toNat_lt {bytes vs : List UInt8} (h : Read bytes vs) : ∀ v ∈ vs, v.toNat < 16 := by
  induction h with
  | nil => simp
  | cons hb _ ih =>
    obtain ⟨c, hc, -⟩ := exists_standsFor hb
    rw [List.forall_mem_cons]
    exact ⟨hc.lt, ih⟩

lemma Read.isSome {bytes vs : List UInt8} (h : Read bytes vs) :
    ∀ b ∈ bytes, (digit? b).isSome := by
  induction h with
  | nil => simp
  | cons hb _ ih =>
    rw [List.forall_mem_cons, hb]
    exact ⟨rfl, ih⟩

/-! ### Marks -/

/-- What may stand before the digits. -/
def marks : List String := ["", "0x", "0X"]

lemma toUTF8_marks : "".toUTF8.toList = [] ∧ "0x".toUTF8.toList = [48, 120] ∧
    "0X".toUTF8.toList = [48, 88] := by
  simp only [toList_toUTF8]
  decide

lemma exists_mark (bytes : List UInt8) :
    ∃ mark ∈ marks, bytes = mark.toUTF8.toList ++ dropMark bytes := by
  obtain ⟨h, hx, hX⟩ := toUTF8_marks
  unfold dropMark
  split
  · exact ⟨"0x", by simp [marks], by rw [hx]; rfl⟩
  · exact ⟨"0X", by simp [marks], by rw [hX]; rfl⟩
  · exact ⟨"", by simp [marks], by rw [h]; rfl⟩

/-- Digits hold no mark, so that one mark is taken away and no more. -/
lemma dropMark_append {mark : String} {bytes : List UInt8} (hmark : mark ∈ marks)
    (h : ∀ b ∈ bytes, (digit? b).isSome) : dropMark (mark.toUTF8.toList ++ bytes) = bytes := by
  obtain ⟨hnone, hx, hX⟩ := toUTF8_marks
  simp only [marks, List.mem_cons, List.not_mem_nil, or_false] at hmark
  rcases hmark with rfl | rfl | rfl
  · rw [hnone, List.nil_append]
    unfold dropMark
    split
    · exact absurd (h 120 (by simp)) (by decide)
    · exact absurd (h 88 (by simp)) (by decide)
    · rfl
  · rw [hx]
    rfl
  · rw [hX]
    rfl

end Hex

namespace U256

open Hex

/-! ### Numerals -/

/-- A text is a numeral for a number: one mark or none, and 1 to 64 digits, the most significant
one first. -/
inductive Numeral : String → ℕ → Prop
  | mk {mark : String} {cs : List Char} {ds : List ℕ} (hmark : mark ∈ marks) (hne : cs ≠ [])
      (hlen : cs.length ≤ 64) (hds : Spell cs ds) :
      Numeral (mark ++ String.ofList cs) (Nat.ofDigits 16 ds.reverse)

/-- What is left to be read of a text. -/
def places (text : String) : List UInt8 := dropMark text.toUTF8.toList

/-- What is wrong with a text, in its bytes: their number, or the first one that is no digit. Its
position counts as if there were 64 places. -/
inductive Fault (text : String) : String → Prop
  | size (h : places text = [] ∨ 64 < (places text).length) :
      Fault text "expected between 1 and 64 hex digits"
  | stray {good rest : List UInt8} {b : UInt8} (h : places text = good ++ b :: rest)
      (hlen : (places text).length ≤ 64) (hgood : ∀ g ∈ good, (digit? g).isSome)
      (hb : digit? b = none) :
      Fault text ("Invalid character " ++ quoteByte b ++ " at position " ++
        toString (64 - (places text).length + good.length))

variable {text : String} {v : U256}

lemma ofHex_of_size (h : places text = [] ∨ 64 < (places text).length) : ofHex text =
    .error (.invalidParameter "U256::from_hex" "expected between 1 and 64 hex digits") := by
  have hc : (!(places text).isEmpty && decide ((places text).length ≤ 64)) = false := by
    rcases h with h | h
    · rw [h]
      rfl
    · simp [h]
  unfold ofHex requireParameter require
  dsimp only
  rw [← places, hc]
  rfl

lemma ofHex_eq_match (hne : places text ≠ []) (hlen : (places text).length ≤ 64) : ofHex text =
    match digits (64 - (places text).length) (places text) with
    | .ok ds => .ok (ds.foldl (fun a d => appendDigit 16 a d.toUInt64) zero)
    | .error (b, i) => .error (.invalidParameter "U256::from_hex"
        ("Invalid character " ++ quoteByte b ++ " at position " ++ toString i)) := by
  have hc : (!(places text).isEmpty && decide ((places text).length ≤ 64)) = true := by
    simp [hne, hlen]
  unfold ofHex requireParameter require
  dsimp only
  rw [← places, hc]
  rfl

/-! ### Texts that are numerals -/

/-- Up to 64 digits are appended to zero. -/
lemma toNat_digits {bytes vs : List UInt8} (hlen : bytes.length ≤ 64) (h : Read bytes vs) :
    (vs.foldl (fun a d => appendDigit 16 a d.toUInt64) zero).toNat =
      Nat.ofDigits 16 (vs.map UInt8.toNat).reverse := by
  rw [h.length_eq] at hlen
  have hpow : 16 ^ vs.length ≤ 16 ^ 64 := Nat.pow_le_pow_right (by norm_num) hlen
  rw [← List.map_reverse]
  exact toNat_appendDigits h.toNat_lt (by decide) (hpow.trans_eq (by norm_num))

/-- A numeral is read, and gives its number. -/
lemma Numeral.exists_ofHex {n : ℕ} (h : Numeral text n) :
    ∃ v, ofHex text = .ok v ∧ v.toNat = n := by
  obtain @⟨mark, cs, ds, hmark, hne, hlen, hds⟩ := h
  obtain ⟨henc, hread⟩ := hds.bytes
  have hplaces : places (mark ++ String.ofList cs) = cs.map Char.toUInt8 := by
    rw [places, toList_toUTF8, String.toList_append, List.flatMap_append, ← toList_toUTF8,
      String.toList_ofList, henc, dropMark_append hmark hread.isSome]
  have hlen' : (cs.map Char.toUInt8).length ≤ 64 := by rwa [List.length_map]
  rw [ofHex_eq_match (by simpa [hplaces]) (by rwa [hplaces]), hplaces, digits_eq_ok_iff.mpr hread]
  exact ⟨_, rfl, by rw [toNat_digits hlen' hread, hds.toNat_toUInt8]⟩

/-- What is read is a numeral or has a fault. -/
lemma ofHex_cases (text : String) : (∃ v, ofHex text = .ok v ∧ Numeral text v.toNat) ∨
    ∃ why, ofHex text = .error (.invalidParameter "U256::from_hex" why) ∧ Fault text why := by
  by_cases hsize : places text = [] ∨ 64 < (places text).length
  · exact .inr ⟨_, ofHex_of_size hsize, .size hsize⟩
  obtain ⟨hne, hlen⟩ := not_or.mp hsize
  rw [not_lt] at hlen
  have hmatch := ofHex_eq_match hne hlen
  cases hds : digits (64 - (places text).length) (places text) with
  | ok vs =>
    rw [hds] at hmatch
    rw [digits_eq_ok_iff] at hds
    obtain ⟨cs, hcs, hbytes⟩ := hds.exists_spell
    obtain ⟨mark, hmark, htext⟩ := exists_mark text.toUTF8.toList
    have hlen' : cs.length ≤ 64 := by
      have h := hcs.length_eq
      rw [List.length_map, ← hds.length_eq] at h
      rwa [h]
    have hne' : cs ≠ [] := by
      rintro rfl
      exact hne hbytes.symm
    have heq : text = mark ++ String.ofList cs := by
      apply eq_of_toUTF8
      rw [htext, toList_toUTF8 (mark ++ _), String.toList_append, List.flatMap_append,
        ← toList_toUTF8, String.toList_ofList, hbytes]
      rfl
    refine .inl ⟨_, hmatch, ?_⟩
    rw [toNat_digits hlen hds, heq]
    exact .mk hmark hne' hlen' hcs
  | error e =>
    obtain ⟨good, b, rest, hplaces, hgood, hb⟩ := exists_stray hds
    have herror := digits_eq_error (64 - (places text).length) rest hgood hb
    rw [← hplaces] at herror
    rw [herror] at hmatch
    exact .inr ⟨_, hmatch, .stray hplaces hlen hgood hb⟩

lemma ofHex_eq_ok_iff : ofHex text = .ok v ↔ Numeral text v.toNat := by
  constructor
  · intro h
    rcases ofHex_cases text with ⟨v', hv', hnum⟩ | ⟨why, hwhy, -⟩
    · rw [h] at hv'
      rwa [Except.ok.inj hv']
    · rw [h] at hwhy
      cases hwhy
  · intro h
    obtain ⟨v', hv', hn⟩ := h.exists_ofHex
    rw [hv', toNat_inj hn]

/-! ### Texts that are written -/

lemma standsFor_digitChar {ten : Char} (hten : ten = 'A' ∨ ten = 'a') {v : UInt8} (hv : v < 16) :
    StandsFor (digitChar ten v) v.toNat := by
  have hall : ∀ n < 16, StandsFor (digitChar 'A' (UInt8.ofNat n)) n ∧
      StandsFor (digitChar 'a' (UInt8.ofNat n)) n := by
    decide
  have h := hall v.toNat hv
  rw [UInt8.ofNat_toNat] at h
  rcases hten with rfl | rfl
  · exact h.1
  · exact h.2

/-- Bytes are written as two digits each. -/
lemma spell_encodeWith {ten : Char} (hten : ten = 'A' ∨ ten = 'a') (bytes : List UInt8) :
    Spell (encodeWith ten bytes).toList
      (bytes.flatMap fun b => [b.toNat / 16, b.toNat % 16]) := by
  rw [encodeWith, String.toList_ofList]
  induction bytes with
  | nil => exact .nil
  | cons b bytes ih =>
    have hlt := b.toNat_lt
    have hhigh : (b >>> 4).toNat = b.toNat / 16 := by
      simp [UInt8.toNat_shiftRight, Nat.shiftRight_eq_div_pow]
    have hlow : (b &&& 15).toNat = b.toNat % 16 := Nat.and_two_pow_sub_one_eq_mod b.toNat 4
    have h16 : (16 : UInt8).toNat = 16 := rfl
    have h1 : b >>> 4 < 16 := by
      rw [UInt8.lt_iff_toNat_lt, hhigh, h16]
      omega
    have h2 : b &&& 15 < 16 := by
      rw [UInt8.lt_iff_toNat_lt, hlow, h16]
      omega
    have hfirst := standsFor_digitChar hten h1
    have hsecond := standsFor_digitChar hten h2
    rw [hhigh] at hfirst
    rw [hlow] at hsecond
    exact .cons hfirst (.cons hsecond ih)

/-- Two digits each are the digits in the base 16. -/
lemma ofDigits_pairs (bytes : List UInt8) :
    Nat.ofDigits 16 (bytes.flatMap fun b => [b.toNat / 16, b.toNat % 16]).reverse =
      bigEndian bytes := by
  induction bytes using List.reverseRecOn with
  | nil => rfl
  | append_singleton bytes b ih =>
    rw [List.flatMap_append, List.flatMap_singleton, List.reverse_append,
      bigEndian_append_singleton, ← ih]
    simp only [List.reverse_cons, List.reverse_nil, List.nil_append, List.cons_append,
      Nat.ofDigits_cons]
    omega

lemma length_pairs (bytes : List UInt8) :
    (bytes.flatMap fun b => [b.toNat / 16, b.toNat % 16]).length = 2 * bytes.length := by
  induction bytes with
  | nil => rfl
  | cons b bytes ih =>
    rw [List.flatMap_cons, List.length_append, ih, List.length_cons, List.length_cons,
      List.length_cons, List.length_nil]
    omega

/-- Zeros in front do not count. -/
lemma ofDigits_zeros_append {zeros : List Char} {us : List ℕ} (h : Spell zeros us)
    (hzero : ∀ c ∈ zeros, c = '0') (ds : List ℕ) :
    Nat.ofDigits 16 (us ++ ds).reverse = Nat.ofDigits 16 ds.reverse := by
  induction h with
  | nil => rfl
  | cons hc _ ih =>
    have hall : ∀ d < 16, StandsFor '0' d → d = 0 := by decide
    obtain ⟨rfl, hrest⟩ := List.forall_mem_cons.mp hzero
    rw [hall _ hc.lt hc, List.cons_append, Nat.ofDigits_reverse_zero_cons, ih hrest]

/-- The text of an integer in either case, from which zeros in front may be left out as long as a
digit is left, and to which a mark may be added, is a numeral for it. -/
lemma numeral_of_encodeWith {ten : Char} (hten : ten = 'A' ∨ ten = 'a') (a : U256)
    {zeros cs : List Char} (htext : (encodeWith ten a.toBytes.toList).toList = zeros ++ cs)
    (hzero : ∀ c ∈ zeros, c = '0') (hne : cs ≠ []) {mark : String} (hmark : mark ∈ marks) :
    Numeral (mark ++ String.ofList cs) a.toNat := by
  have hall := spell_encodeWith hten a.toBytes.toList
  have hvalue := a.bigEndian_toBytes
  rw [← ofDigits_pairs] at hvalue
  have hlen := hall.length_eq
  rw [length_pairs, Vector.length_toList, htext, List.length_append] at hlen
  rw [htext] at hall
  have hzeros := List.forall₂_take zeros.length hall
  have hcs := List.forall₂_drop zeros.length hall
  rw [List.take_left] at hzeros
  rw [List.drop_left] at hcs
  rw [← List.take_append_drop zeros.length (a.toBytes.toList.flatMap _),
    ofDigits_zeros_append hzeros hzero] at hvalue
  rw [← hvalue]
  exact .mk hmark hne (by omega) hcs

/-- The text of an integer is read back. -/
lemma ofHex_toHex (a : U256) : ofHex a.toHex = .ok a := by
  have hlen := (spell_encodeWith (.inl rfl) a.toBytes.toList).length_eq
  rw [length_pairs, Vector.length_toList] at hlen
  have hne : a.toHex.toList ≠ [] := List.ne_nil_of_length_pos (by rw [toHex, encodeUpper]; omega)
  have hmark : "" ∈ marks := by simp [marks]
  have hnumeral := numeral_of_encodeWith (.inl rfl) a (List.nil_append _).symm nofun hne hmark
  rw [String.ofList_toList, String.empty_append] at hnumeral
  exact ofHex_eq_ok_iff.mpr hnumeral

/-! ### Bytes -/

end U256

end Secp256k1
