import Mathlib.Data.List.Forall2
import Secp256k1.Json.Parser

/-!
Written JSON is read back.

A value can be read wherever an object or a text may go on behind it: no reader takes more than
its own part. That is shown for each kind of value that is written, for the members of an object
by induction, and from it for a whole text.
-/

namespace Secp256k1.Json

/-! ### Strings -/

/-- A letter behind a backslash. -/
lemma takePieces_simpleEscape {e c : Char} (h : simpleEscape? e = some c) (he : e ≠ 'u')
    (cs : List Char) :
    takePieces ('\\' :: e :: cs) = (takePieces cs).map fun (us, rest) => (.char c :: us, rest) := by
  rw [takePieces, h]
  · cases takePieces cs <;> rfl
  · rintro - - - - - rfl
    contradiction

lemma codeUnit?_of_lt {n : ℕ} (h : n < 32) :
    codeUnit? '0' '0' (Nat.digitChar (n / 16)) (Nat.digitChar (n % 16)) = some n := by
  revert n
  decide

lemma ofCodeUnit_of_lt {c : Char} (h : c.toNat < 32) : Piece.ofCodeUnit c.toNat = .char c := by
  have hhigh : isHighSurrogate c.toNat = false := by
    simp only [isHighSurrogate, Bool.and_eq_false_iff, decide_eq_false_iff_not]
    omega
  have hlow : isLowSurrogate c.toNat = false := by
    simp only [isLowSurrogate, Bool.and_eq_false_iff, decide_eq_false_iff_not]
    omega
  rw [Piece.ofCodeUnit, hhigh, hlow, Char.ofNat_toNat]
  rfl

/-- A letter that is written for a character is read as the character. -/
lemma simpleEscape?_of_shortEscape? {c e : Char} (h : shortEscape? c = some e) :
    simpleEscape? e = some c ∧ e ≠ 'u' := by
  unfold shortEscape? at h
  split at h <;> cases h <;> exact ⟨rfl, by decide⟩

/-- The quote and the backslash are escaped by a letter. -/
lemma ne_of_shortEscape?_eq_none {c : Char} (h : shortEscape? c = none) : c ≠ '"' ∧ c ≠ '\\' := by
  constructor
  all_goals
    rintro rfl
    cases h

/-- The escaped form of a character is one part of a string. -/
lemma takePieces_escape (c : Char) (cs : List Char) :
    takePieces (escape c ++ cs) = (takePieces cs).map fun (us, rest) => (.char c :: us, rest) := by
  unfold escape
  rcases he : shortEscape? c with _ | e
  · obtain ⟨hquote, hslash⟩ := ne_of_shortEscape?_eq_none he
    dsimp only
    split
    · next hcontrol =>
      simp only [List.cons_append, List.nil_append]
      rw [takePieces, codeUnit?_of_lt hcontrol]
      cases takePieces cs with
      | none => rfl
      | some p => exact congrArg (fun u => some (u :: p.1, p.2)) (ofCodeUnit_of_lt hcontrol)
    · next hcontrol =>
      rw [List.singleton_append, takePieces]
      · simp [hcontrol, hslash]
      all_goals simp_all
  · obtain ⟨hsimple, hletter⟩ := simpleEscape?_of_shortEscape? he
    exact takePieces_simpleEscape hsimple hletter cs

/-- Nothing is left of a quoted text, up to the closing quote. -/
lemma takePieces_flatMap (cs rest : List Char) :
    takePieces (cs.flatMap escape ++ '"' :: rest) = some (cs.map .char, rest) := by
  induction cs with
  | nil => rw [List.flatMap_nil, List.nil_append, takePieces, List.map_nil]
  | cons c cs ih => rw [List.flatMap_cons, List.append_assoc, takePieces_escape, ih]; rfl

lemma spell_map_char (cs : List Char) : spell (cs.map .char) = some cs := by
  induction cs with
  | nil => rfl
  | cons c cs ih => rw [List.map_cons, spell, ih]; rfl

lemma takeString_flatMap (text : String) (rest : List Char) :
    takeString (text.toList.flatMap escape ++ '"' :: rest) = some (some text, rest) := by
  rw [takeString, takePieces_flatMap, Option.map_some]
  dsimp only
  rw [spell_map_char, Option.map_some, String.ofList_toList]

/-! ### Numbers -/

/-- What may stand behind a value: nothing, a comma or the end of an object. -/
def FollowsValue (rest : List Char) : Prop :=
  rest = [] ∨ ∃ rest', rest = ',' :: rest' ∨ rest = '\x7d' :: rest'

/-- No number but zero begins with a zero. -/
lemma eq_zero_of_toDigits {n : ℕ} {ds : List Char} (h : Nat.toDigits 10 n = '0' :: ds) :
    n = 0 := by
  induction n using Nat.strongRecOn generalizing ds with
  | ind n ih =>
    rw [Nat.toDigits_eq_if (by decide)] at h
    split at h
    · next hn =>
      have hall : ∀ d < 10, Nat.digitChar d = '0' → d = 0 := by decide
      exact hall n hn (List.cons.inj h).1
    · next hn =>
      cases hds : Nat.toDigits 10 (n / 10) with
      | nil => exact absurd hds Nat.toDigits_ne_nil
      | cons d ds' =>
        rw [hds, List.cons_append] at h
        rw [(List.cons.inj h).1] at hds
        have hquot := ih (n / 10) (by omega) hds
        omega

lemma takeDigits_append {ds rest : List Char} (hne : ds ≠ []) (hds : ∀ d ∈ ds, d.isDigit)
    (hrest : FollowsValue rest) : takeDigits (ds ++ rest) = some (ds, rest) := by
  have htake : rest.takeWhile Char.isDigit = [] := by
    rcases hrest with rfl | ⟨rest', rfl | rfl⟩ <;> rfl
  have hdrop : rest.dropWhile Char.isDigit = rest := by
    rcases hrest with rfl | ⟨rest', rfl | rfl⟩ <;> rfl
  rw [takeDigits, List.takeWhile_append_of_pos hds, List.dropWhile_append_of_pos hds, htake, hdrop,
    List.append_nil]
  cases ds with
  | nil => contradiction
  | cons d ds => rfl

lemma isDigit_of_mem {n : ℕ} {d : Char} (hd : d ∈ Nat.toDigits 10 n) : d.isDigit :=
  Nat.isDigit_of_mem_toDigits (by decide) (by decide) hd

/-- A number begins with a digit, and with nothing else. -/
lemma exists_digit (n : ℕ) :
    ∃ d ds, Nat.toDigits 10 n = d :: ds ∧ ∀ c : Char, c.isDigit = false → d ≠ c := by
  have hdigit := @isDigit_of_mem n
  cases hds : Nat.toDigits 10 n with
  | nil => exact absurd hds Nat.toDigits_ne_nil
  | cons d ds =>
    refine ⟨d, ds, rfl, ?_⟩
    rintro c hc rfl
    rw [hdigit (by simp [hds])] at hc
    cases hc

lemma takeInteger_toDigits (n : ℕ) {rest : List Char} (hrest : FollowsValue rest) :
    takeInteger (Nat.toDigits 10 n ++ rest) = some (Nat.toDigits 10 n, rest) := by
  have htake : takeDigits (Nat.toDigits 10 n ++ rest) = some (Nat.toDigits 10 n, rest) :=
    takeDigits_append Nat.toDigits_ne_nil (fun _ => isDigit_of_mem) hrest
  obtain ⟨d, ds, hds, -⟩ := exists_digit n
  by_cases hd : d = '0'
  · subst hd
    obtain rfl := eq_zero_of_toDigits hds
    rfl
  · rw [hds, List.cons_append] at htake ⊢
    rw [takeInteger]
    · exact htake
    · intro _ h
      exact hd (List.cons.inj h).1

lemma takeMagnitude_toDigits (n : ℕ) {rest : List Char} (hrest : FollowsValue rest) :
    takeMagnitude (Nat.toDigits 10 n ++ rest) = some (Nat.toDigits 10 n, rest) := by
  have hfraction : takeFraction rest = some ([], rest) := by
    rcases hrest with rfl | ⟨rest', rfl | rfl⟩ <;> rfl
  have hexponent : takeExponent rest = some ([], rest) := by
    rcases hrest with rfl | ⟨rest', rfl | rfl⟩ <;> rfl
  simp [takeMagnitude, takeInteger_toDigits n hrest, hfraction, hexponent]

lemma takeNumber_toDigits (n : ℕ) {rest : List Char} (hrest : FollowsValue rest) :
    takeNumber (Nat.toDigits 10 n ++ rest) = some (number (Nat.toDigits 10 n), rest) := by
  have htake := takeMagnitude_toDigits n hrest
  obtain ⟨d, ds, hds, hd⟩ := exists_digit n
  rw [hds, List.cons_append] at htake ⊢
  rw [takeNumber, htake]
  · rfl
  · intro _ h
    exact hd '-' rfl (List.cons.inj h).1

/-! ### Values -/

/-- A text is read as a value wherever one may stand. -/
def ReadAs (text : String) (j : Json) : Prop :=
  ∀ fuel rest, FollowsValue rest → takeValue (fuel + 1) (text.toList ++ rest) = some (j, rest)

lemma readAs_null : ReadAs "null" null := fun _ _ _ => rfl

lemma readAs_writeBool (b : Bool) : ReadAs (writeBool b) (bool b) := by
  intro fuel rest _
  cases b <;> rfl

lemma readAs_toString (n : ℕ) : ReadAs (toString n) (number (Nat.toDigits 10 n)) := by
  intro fuel rest hrest
  have htake := takeNumber_toDigits n hrest
  obtain ⟨d, ds, hds, hd⟩ := exists_digit n
  rw [Nat.toString_eq_ofList_toDigits, String.toList_ofList]
  rw [hds, List.cons_append] at htake ⊢
  have hskip : skipBlanks (d :: (ds ++ rest)) = d :: (ds ++ rest) := by
    apply List.dropWhile_cons_of_neg
    simp [isBlank, hd]
  rw [takeValue, hskip]
  split
  case h_7 => exact htake
  all_goals next h => exact absurd (List.cons.inj h).1 (hd _ rfl)

lemma readAs_quote (text : String) : ReadAs (quote text) (string text) := by
  intro fuel rest _
  rw [quote, String.toList_ofList, List.append_assoc, List.cons_append, List.singleton_append]
  change (takeString (text.toList.flatMap escape ++ '"' :: rest)).map _ = _
  rw [takeString_flatMap]
  rfl

lemma ReadAs.parse? {text : String} {j : Json} (h : ReadAs text j) : parse? text = some j := by
  have htake := h (2 * text.toList.length + 1) [] (.inl rfl)
  rw [List.append_nil] at htake
  rw [Json.parse?, htake]
  rfl

/-! ### Objects -/

/-- A member is read as a name and a value. -/
structure MemberReadAs (member : String × String) (j : Option String × Json) : Prop where
  name : j.1 = some member.1
  value : ReadAs member.2 j.2

def writeMember (member : String × String) : String := quote member.1 ++ ":" ++ member.2

lemma writeObject_eq (members : List (String × String)) :
    writeObject members = "\x7b" ++ ",".intercalate (members.map writeMember) ++ "\x7d" := rfl

variable {member : String × String} {members : List (String × String)}
  {j : Option String × Json} {js : List (Option String × Json)}

/-- What follows a member decides whether it is the last one. -/
def takeFurther (fuel : ℕ) (j : Option String × Json) (rest : List Char) :
    Option (List (Option String × Json) × List Char) :=
  match skipBlanks rest with
  | '\x7d' :: rest => some ([j], rest)
  | ',' :: rest => (takeMembers fuel rest).map fun (js, rest) => (j :: js, rest)
  | _ => none

lemma takeMembers_writeMember (h : MemberReadAs member j) (fuel : ℕ) {rest : List Char}
    (hrest : FollowsValue rest) :
    takeMembers (fuel + 2) ((writeMember member).toList ++ rest) =
      takeFurther (fuel + 1) j rest := by
  obtain ⟨name, value⟩ := j
  obtain ⟨rfl, hvalue⟩ := h
  have htext : (writeMember member).toList ++ rest = '"' :: (member.1.toList.flatMap escape ++
      '"' :: ':' :: (member.2.toList ++ rest)) := by
    simp [writeMember, quote]
  have hskip (cs : List Char) : skipBlanks ('"' :: cs) = '"' :: cs := rfl
  have hcolon (cs : List Char) : skipBlanks (':' :: cs) = ':' :: cs := rfl
  rw [htext, takeMembers, hskip]
  simp only [takeString_flatMap, hcolon, hvalue fuel rest hrest]
  rfl

/-- The members are read in their order, one call for each of them. -/
lemma takeMembers_intercalate (h : MemberReadAs member j)
    (hs : List.Forall₂ MemberReadAs members js) (fuel : ℕ) (rest : List Char) :
    takeMembers (fuel + members.length + 2)
      ((",".intercalate ((member :: members).map writeMember)).toList ++ '\x7d' :: rest) =
        some (j :: js, rest) := by
  induction hs generalizing member j with
  | nil =>
    rw [List.map_cons, List.map_nil, String.intercalate_singleton, List.length_nil,
      takeMembers_writeMember h _ (.inr ⟨rest, .inr rfl⟩)]
    rfl
  | @cons member' j' members js h' _ ih =>
    have hread := ih h'
    rw [List.map_cons] at hread
    rw [List.map_cons, List.map_cons, String.intercalate_cons_cons, String.toList_append,
      String.toList_append, List.append_assoc, List.append_assoc]
    rw [show ",".toList = [','] from rfl, List.singleton_append,
      takeMembers_writeMember h _ (.inr ⟨_, .inl rfl⟩)]
    change (takeMembers (fuel + members.length + 2) _).map _ = _
    rw [hread]
    rfl

lemma exists_quote (member : String × String) (members : List (String × String)) : ∃ cs,
    (",".intercalate ((member :: members).map writeMember)).toList = '"' :: cs := by
  cases members with
  | nil => simp [writeMember, quote]
  | cons member' members => simp [writeMember, quote]

lemma length_le_intercalate (members : List (String × String)) :
    members.length ≤ (",".intercalate (members.map writeMember)).toList.length := by
  induction members with
  | nil => simp
  | cons member members ih =>
    cases members with
    | nil => simp [writeMember, quote]
    | cons member' members =>
      rw [List.map_cons, List.map_cons, String.intercalate_cons_cons, ← List.map_cons]
      simp only [String.toList_append, List.length_append, List.length_cons] at ih ⊢
      have hcomma : ",".toList.length = 1 := rfl
      omega

/-- The text of an object is read as the object of its members. -/
theorem parse?_writeObject (h : List.Forall₂ MemberReadAs members js) :
    Json.parse? (writeObject members) = some (object js) := by
  cases h with
  | nil => rfl
  | @cons member j members js h hs =>
    obtain ⟨cs, hcs⟩ := exists_quote member members
    have hlen := length_le_intercalate (member :: members)
    have hchars : (writeObject (member :: members)).toList = '\x7b' :: ('"' :: cs ++ ['\x7d']) := by
      rw [writeObject_eq, String.toList_append, String.toList_append, hcs]
      rfl
    -- Every member is one character at least, so that the fuel is enough for all of them.
    have hle : members.length + 2 + 1 ≤
        2 * (writeObject (member :: members)).toList.length + 2 := by
      rw [hcs, List.length_cons] at hlen
      rw [hchars, List.length_cons, List.length_append]
      omega
    obtain ⟨fuel, hfuel⟩ := Nat.exists_eq_add_of_le' hle
    have hread := takeMembers_intercalate h hs fuel []
    have hvalue : takeValue (fuel + (members.length + 2 + 1))
        ('\x7b' :: ('"' :: cs ++ ['\x7d'])) = (takeMembers (fuel + members.length + 2)
          ('"' :: cs ++ ['\x7d'])).map fun (js, rest) => (object js, rest) := rfl
    rw [hcs] at hread
    rw [Json.parse?, hfuel, hchars, hvalue, hread]
    rfl

end Secp256k1.Json
