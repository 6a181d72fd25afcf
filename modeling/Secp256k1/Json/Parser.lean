import Secp256k1.Json.Basic

/-!
Reading JSON text.

Each reader takes its part off the front of the text and returns what is left. A string literal
is read to its end even where it spells half of a surrogate pair, since it may stand where
nobody looks at it.
-/

namespace Secp256k1.Json

/-- What may stand between tokens. -/
def isBlank (c : Char) : Bool := c = ' ' || c = '\n' || c = '\t' || c = '\r'

def skipBlanks (cs : List Char) : List Char := cs.dropWhile isBlank

/-! ### Numbers -/

/-- The digits in front, of which there has to be one at least. -/
def takeDigits (cs : List Char) : Option (List Char × List Char) :=
  match cs.takeWhile Char.isDigit with
  | [] => none
  | ds => some (ds, cs.dropWhile Char.isDigit)

/-- The integer part: a zero, or digits that do not begin with one. -/
def takeInteger : List Char → Option (List Char × List Char)
  | '0' :: rest => some (['0'], rest)
  | cs => takeDigits cs

/-- The fraction, if there is one. -/
def takeFraction : List Char → Option (List Char × List Char)
  | '.' :: rest => (takeDigits rest).map fun (ds, rest) => ('.' :: ds, rest)
  | cs => some ([], cs)

/-- The exponent, if there is one. -/
def takeExponent : List Char → Option (List Char × List Char)
  | e :: rest =>
    if e = 'e' || e = 'E' then
      match rest with
      | '+' :: rest => (takeDigits rest).map fun (ds, rest) => (e :: '+' :: ds, rest)
      | '-' :: rest => (takeDigits rest).map fun (ds, rest) => (e :: '-' :: ds, rest)
      | _ => (takeDigits rest).map fun (ds, rest) => (e :: ds, rest)
    else some ([], e :: rest)
  | [] => some ([], [])

/-- A number without its sign. -/
def takeMagnitude (cs : List Char) : Option (List Char × List Char) := do
  let (integer, rest) ← takeInteger cs
  let (fraction, rest) ← takeFraction rest
  let (exponent, rest) ← takeExponent rest
  return (integer ++ fraction ++ exponent, rest)

def takeNumber : List Char → Option (Json × List Char)
  | '-' :: rest => (takeMagnitude rest).map fun (ds, rest) => (number ('-' :: ds), rest)
  | cs => (takeMagnitude cs).map fun (ds, rest) => (number ds, rest)

/-! ### Strings -/

def hexDigit? (c : Char) : Option Nat :=
  if '0' ≤ c ∧ c ≤ '9' then some (c.toNat - 48)
  else if 'a' ≤ c ∧ c ≤ 'f' then some (c.toNat - 87)
  else if 'A' ≤ c ∧ c ≤ 'F' then some (c.toNat - 55)
  else none

/-- The code unit of four hexadecimal digits. -/
def codeUnit? (a b c d : Char) : Option Nat := do
  return 4096 * (← hexDigit? a) + 256 * (← hexDigit? b) + 16 * (← hexDigit? c) + (← hexDigit? d)

def isHighSurrogate (u : Nat) : Bool := 0xD800 ≤ u && u < 0xDC00

def isLowSurrogate (u : Nat) : Bool := 0xDC00 ≤ u && u < 0xE000

/-- The character of a pair of surrogates. -/
def joinSurrogates (high low : Nat) : Char :=
  Char.ofNat (0x10000 + 0x400 * (high - 0xD800) + (low - 0xDC00))

/-- The character of a one-letter escape. -/
def simpleEscape? : Char → Option Char
  | '"' => some '"'
  | '\\' => some '\\'
  | '/' => some '/'
  | 'b' => some '\x08'
  | 'f' => some '\x0c'
  | 'n' => some '\n'
  | 'r' => some '\r'
  | 't' => some '\t'
  | _ => none

/-- One part of a string literal. -/
inductive Piece where
  | char (c : Char)
  /-- Half of a surrogate pair. -/
  | surrogate (u : Nat)

/-- The part that a `\u` escape is. -/
def Piece.ofCodeUnit (u : Nat) : Piece :=
  if isHighSurrogate u || isLowSurrogate u then surrogate u else char (Char.ofNat u)

/-- The parts up to the closing quote, and what follows that. -/
def takePieces : List Char → Option (List Piece × List Char)
  | [] => none
  | '"' :: rest => some ([], rest)
  | '\\' :: 'u' :: a :: b :: c :: d :: rest =>
    match codeUnit? a b c d, takePieces rest with
    | some u, some (us, rest) => some (Piece.ofCodeUnit u :: us, rest)
    | _, _ => none
  | '\\' :: e :: rest =>
    match simpleEscape? e, takePieces rest with
    | some c, some (us, rest) => some (.char c :: us, rest)
    | _, _ => none
  | c :: rest =>
    if c.toNat < 32 || c = '\\' then none
    else (takePieces rest).map fun (us, rest) => (.char c :: us, rest)

/-- The text that the parts spell, if every surrogate has its other half right behind or before. -/
def spell : List Piece → Option (List Char)
  | [] => some []
  | .char c :: us => (spell us).map (c :: ·)
  | .surrogate u :: .surrogate v :: us =>
    if isHighSurrogate u && isLowSurrogate v then (spell us).map (joinSurrogates u v :: ·) else none
  | .surrogate _ :: _ => none

/-- A string literal without its opening quote. -/
def takeString (cs : List Char) : Option (Option String × List Char) :=
  (takePieces cs).map fun (us, rest) => ((spell us).map String.ofList, rest)

/-! ### Values -/

mutual

/-- A value; `fuel` bounds the depth of the calls. -/
def takeValue (fuel : Nat) (cs : List Char) : Option (Json × List Char) :=
  match fuel with
  | 0 => none
  | fuel + 1 =>
    match skipBlanks cs with
    | 'n' :: 'u' :: 'l' :: 'l' :: rest => some (null, rest)
    | 't' :: 'r' :: 'u' :: 'e' :: rest => some (bool true, rest)
    | 'f' :: 'a' :: 'l' :: 's' :: 'e' :: rest => some (bool false, rest)
    | '"' :: rest => (takeString rest).map fun (text, rest) => (string text, rest)
    | '[' :: rest =>
      match skipBlanks rest with
      | ']' :: rest => some (array [], rest)
      | rest => (takeItems fuel rest).map fun (items, rest) => (array items, rest)
    | '\x7b' :: rest =>
      match skipBlanks rest with
      | '\x7d' :: rest => some (object [], rest)
      | rest => (takeMembers fuel rest).map fun (members, rest) => (object members, rest)
    | rest => takeNumber rest

/-- The items of an array, up to its closing bracket; there is one at least. -/
def takeItems (fuel : Nat) (cs : List Char) : Option (List Json × List Char) :=
  match fuel with
  | 0 => none
  | fuel + 1 =>
    match takeValue fuel cs with
    | none => none
    | some (item, rest) =>
      match skipBlanks rest with
      | ']' :: rest => some ([item], rest)
      | ',' :: rest => (takeItems fuel rest).map fun (items, rest) => (item :: items, rest)
      | _ => none

/-- The members of an object, up to its closing brace; there is one at least. -/
def takeMembers (fuel : Nat) (cs : List Char) : Option (List (Option String × Json) × List Char) :=
  match fuel with
  | 0 => none
  | fuel + 1 =>
    match skipBlanks cs with
    | '"' :: rest =>
      match takeString rest with
      | none => none
      | some (name, rest) =>
        match skipBlanks rest with
        | ':' :: rest =>
          match takeValue fuel rest with
          | none => none
          | some (value, rest) =>
            match skipBlanks rest with
            | '\x7d' :: rest => some ([(name, value)], rest)
            | ',' :: rest =>
              (takeMembers fuel rest).map fun (members, rest) => ((name, value) :: members, rest)
            | _ => none
        | _ => none
    | _ => none

end

/-- The value that a whole text is. Two calls take off one character at least, so twice the
length is fuel enough. -/
def parse? (text : String) : Option Json :=
  let cs := text.toList
  match takeValue (2 * cs.length + 2) cs with
  | some (j, rest) => if (skipBlanks rest).isEmpty then some j else none
  | none => none

end Secp256k1.Json
