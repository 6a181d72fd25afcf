import Secp256k1.Point.Group

/-!
Byte encodings of points.

There are two, told apart by their first byte: `04` and both coordinates, or `02` or `03` and
`x`, where the tag gives the parity of `y`. Infinity is a string of zero bytes. Each fixed-length
reader accepts one encoding per point; the reader of either format takes zero bytes of any
number as infinity.
-/

namespace Secp256k1

/-- What an encoded point is, by its first byte and its length. -/
inductive PointFormat where
  | identity
  | uncompressed
  | compressed
  deriving DecidableEq, Inhabited

/-- The name of the format. -/
def PointFormat.name : PointFormat → String
  | .identity => "Identity"
  | .uncompressed => "Uncompressed"
  | .compressed => "Compressed"

namespace Point

/-- Whether a byte string is all zero. -/
def isZeroBytes (bytes : List UInt8) : Bool := bytes.all (· == 0)

def detectFormat (bytes : List UInt8) : Except Error PointFormat :=
  match bytes with
  | [] => throw (.invalidParameter "CurvePoint" "empty point encoding")
  | tag :: _ =>
    if isZeroBytes bytes then .ok .identity
    else if tag == 4 then
      (requireLength "CurvePoint" bytes.length Parameters.uncompressedSize).map
        fun _ => .uncompressed
    else if tag == 2 || tag == 3 then
      (requireLength "CurvePoint" bytes.length Parameters.compressedSize).map fun _ => .compressed
    else throw (.invalidParameter "CurvePoint" "unknown point prefix")

/-- `04`, `x` and `y`. -/
def toUncompressed (p : Point) : List UInt8 :=
  let q := p.toAffine
  if q.isInfinity then List.replicate Parameters.uncompressedSize 0
  else 4 :: (q.x.toBytes.toList ++ q.y.toBytes.toList)

def ofUncompressed (bytes : List UInt8) : Except Error Point := do
  requireLength "CurvePoint::from_uncompressed" bytes.length Parameters.uncompressedSize
  if isZeroBytes bytes then return infinity
  requireParameter (bytes.head? == some 4) "CurvePoint::from_uncompressed"
    "invalid uncompressed point prefix (expected 0x04)"
  let coordinates := bytes.drop 1
  let x ← FieldElement.ofBytes (coordinates.take Parameters.fieldElementSize)
  let y ← FieldElement.ofBytes (coordinates.drop Parameters.fieldElementSize)
  ofAffineOnCurve x y

/-- The tag of a compressed point with an odd, or with an even `y`. -/
def parityTag (odd : Bool) : UInt8 := if odd then 3 else 2

/-- The tag and `x`. -/
def toCompressed (p : Point) : List UInt8 :=
  let q := p.toAffine
  if q.isInfinity then List.replicate Parameters.compressedSize 0
  else parityTag q.y.isOdd :: q.x.toBytes.toList

/-- The point with the given `x`, and with a `y` of the given parity. -/
def decompress (x : FieldElement) (odd : Bool) : Except Error Point :=
  (curveRhs x).sqrt?.elim (throw (.pointNotOnCurve "CurvePoint::from_compressed")) fun y =>
    return ofAffine x (if y.isOdd == odd then y else -y)

def ofCompressed (bytes : List UInt8) : Except Error Point := do
  requireLength "CurvePoint::from_compressed" bytes.length Parameters.compressedSize
  if isZeroBytes bytes then return infinity
  let tag := bytes.headD 0
  requireParameter (tag == 2 || tag == 3) "CurvePoint::from_compressed"
    "invalid compressed point prefix"
  let x ← FieldElement.ofBytes (bytes.drop 1)
  decompress x (tag == 3)

/-- Read either encoding. -/
def ofSec1 (bytes : List UInt8) : Except Error Point := do
  match ← detectFormat bytes with
  | .identity => return infinity
  | .uncompressed => ofUncompressed bytes
  | .compressed => ofCompressed bytes

end Point

end Secp256k1
