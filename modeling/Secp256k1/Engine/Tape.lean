import Secp256k1.Engine.Basic

/-!
A source of randomness that plays a given byte string.

What happens at the end of the string is part of the tape. The position counts every byte that
has been taken, whether the string had it or not.
-/

namespace Secp256k1

/-- What a tape gives past its last byte. -/
inductive TapeEnd where
  /-- Nothing: a request for more bytes than are left fails as a whole. -/
  | fail
  /-- Zero bytes. -/
  | zero
  /-- The same bytes over again. -/
  | cycle
  deriving DecidableEq, Inhabited

structure Tape where
  content : Array UInt8
  tapeEnd : TapeEnd
  position : Nat
  deriving Inhabited

namespace Tape

/-- The byte at an absolute position. -/
def byteAt (t : Tape) (i : Nat) : UInt8 :=
  match t.tapeEnd with
  | .cycle => t.content.getD (i % t.content.size) 0
  | _ => t.content.getD i 0

def take (t : Tape) (n : Nat) : Vector UInt8 n × Tape :=
  (Vector.ofFn fun i => t.byteAt (t.position + i.val), { t with position := t.position + n })

/-- Whether the string still has `n` bytes. -/
def has (t : Tape) (n : Nat) : Bool := t.position + n ≤ t.content.size

/-- A word is eight bytes, the least significant first, and is never refused. -/
instance : RandomSource Tape where
  bytes n t :=
    if t.tapeEnd = .fail && !t.has n then (none, t)
    else
      let (b, t) := t.take n
      (some b, t)
  word t :=
    let (b, t) := t.take 8
    (b.toList.foldr (fun b w => w * 256 + b.toUInt64) 0, t)

end Tape

end Secp256k1
