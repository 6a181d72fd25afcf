/-!
Comparison and exchange without a branch on the data.

Equality gathers the differences of all places and looks at them once; only lengths, which are
public, are compared first. An exchange mixes both words with a mask of all ones or all zeros.
-/

namespace Secp256k1.ConstantTime

/-- Whether two byte strings are equal. -/
def equalBytes (a b : List UInt8) : Bool :=
  a.length == b.length && (List.zipWith (· ^^^ ·) a b).foldl (· ||| ·) 0 == 0

/-- Whether two strings of equally many words are equal. -/
def equalWords (a b : List UInt64) : Bool :=
  (List.zipWith (· ^^^ ·) a b).foldl (· ||| ·) 0 == 0

/-- Exchange two words if `choice` is set. -/
def swapWord (choice : Bool) (a b : UInt64) : UInt64 × UInt64 :=
  let t := (0 - choice.toUInt64) &&& (a ^^^ b)
  (a ^^^ t, b ^^^ t)

/-- Exchange two strings of equally many words if `choice` is set. -/
def swapWords (choice : Bool) (a b : List UInt64) : List UInt64 × List UInt64 :=
  (List.zipWith (swapWord choice) a b).unzip

end Secp256k1.ConstantTime
