/-!
JSON values.

A number is kept as its literal, because the only numbers that are read are the ones written
without a sign, a fraction or an exponent. A string literal may spell half of a surrogate pair;
then it is well-formed JSON, but it is no text.
-/

namespace Secp256k1

inductive Json where
  | null
  | bool (b : Bool)
  | number (literal : List Char)
  /-- The text of a string, or nothing for a literal that spells none. -/
  | string (text : Option String)
  | array (items : List Json)
  /-- The members of an object, in their order. -/
  | object (members : List (Option String × Json))

namespace Json

/-! ### Writing -/

/-- The letter of a character that is escaped by one. -/
def shortEscape? : Char → Option Char
  | '"' => some '"'
  | '\\' => some '\\'
  | '\x08' => some 'b'
  | '\x0c' => some 'f'
  | '\n' => some 'n'
  | '\r' => some 'r'
  | '\t' => some 't'
  | _ => none

/-- The escaped form of a character inside a string literal. -/
def escape (c : Char) : List Char :=
  match shortEscape? c with
  | some e => ['\\', e]
  | none =>
    if c.toNat < 32 then
      ['\\', 'u', '0', '0', Nat.digitChar (c.toNat / 16), Nat.digitChar (c.toNat % 16)]
    else [c]

/-- The literal of a text. -/
def quote (text : String) : String :=
  String.ofList ('"' :: text.toList.flatMap escape ++ ['"'])

/-- An object, given the names of its members and their values as they are written. -/
def writeObject (members : List (String × String)) : String :=
  "\x7b" ++ ",".intercalate (members.map fun (name, value) => quote name ++ ":" ++ value) ++ "\x7d"

def writeBool (b : Bool) : String := if b then "true" else "false"

/-- A value that may be absent. -/
def writeOption {α : Type} (write : α → String) : Option α → String
  | none => "null"
  | some a => write a

/-! ### Reading values -/

def toBool? : Json → Option Bool
  | bool b => some b
  | _ => none

/-- The text of a string. -/
def toText? : Json → Option String
  | string text => text
  | _ => none

/-- The value of a literal that has digits only. -/
def toNat? : Json → Option Nat
  | number ds => if ds.all Char.isDigit then some (Nat.ofDigitChars 10 ds 0) else none
  | _ => none

/-- A value that may be absent. -/
def toOption? {α : Type} (read : Json → Option α) : Json → Option (Option α)
  | null => some none
  | j => (read j).map some

/-- The known members of a record, by name. A record is an object, in which the order does not
matter, unknown members are passed over and a known one stands only once; or it is an array of
values in the order of the names, from which the last ones may be missing. -/
def record? (names : List String) : Json → Option (List (String × Json))
  | array items => if items.length ≤ names.length then some (names.zip items) else none
  | object members => do
    let members ← members.mapM fun (name, value) => name.map (·, value)
    let known := members.filter fun m => names.contains m.1
    if (known.map (·.1)).Nodup then some known else none
  | _ => none

end Json

end Secp256k1
