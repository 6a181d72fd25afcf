import Secp256k1.Point.Basic

/-!
The group of the curve, in affine coordinates.

Three points on a line add up to infinity: a chord gives the sum of two points, a tangent the
double of one. Jacobian operands are brought to affine form first, and every result is affine.
-/

namespace Secp256k1.Point

/-- Infinity, or a point whose affine coordinates satisfy `y² = x³ + 7`. -/
def isOnCurve (p : Point) : Bool :=
  p.isInfinity ||
    let q := p.toAffine
    q.y.square == curveRhs q.x

/-- Refuse a point off the curve. -/
def validate (p : Point) : Except Error Unit := requireOnCurve p.isOnCurve "CurvePoint::validate"

/-- The point with the given affine coordinates, if they are on the curve. -/
def ofAffineOnCurve (x y : FieldElement) : Except Error Point := do
  let p := ofAffine x y
  requireOnCurve p.isOnCurve "CurvePoint::from_affine"
  return p

/-- The opposite point, in the same coordinate system. -/
def neg (p : Point) : Point :=
  match p.form with
  | .infinity => infinity
  | .affine => ofAffine p.x (-p.y)
  | .jacobian => ofJacobian p.x (-p.y) p.z

/-- Whether two points are the same element of the group, however they are stored. -/
def equals (p q : Point) : Bool :=
  match p.isInfinity, q.isInfinity with
  | true, true => true
  | true, false | false, true => false
  | false, false =>
    let p := p.toAffine
    let q := q.toAffine
    p.x == q.x && p.y == q.y

/-- The opposite of the point with the abscissa `x` on the line of the given slope through `p`. -/
def opposite (slope : FieldElement) (p : Point) (x : FieldElement) : Point :=
  ofAffine x (slope * (p.x - x) - p.y)

/-- `p + p`, along the tangent of slope `3x² / 2y`. A point with `y = 0` is its own opposite. -/
def double (p : Point) : Except Error Point := do
  if p.isInfinity then return infinity
  let p := p.toAffine
  if p.y.isZero then return infinity
  let x2 := p.x.square
  let slope := (x2 + x2 + x2) * (← p.y.double.invert)
  return opposite slope p (slope.square - p.x.double)

/-- `p + q`, along the chord of slope `(y₂ - y₁) / (x₂ - x₁)`. Equal points go to `double`, and
opposite ones to infinity. -/
def add (p q : Point) : Except Error Point := do
  if p.isInfinity then return q.toAffine
  if q.isInfinity then return p.toAffine
  let p := p.toAffine
  let q := q.toAffine
  if p.x == q.x then
    if p.y == q.y then p.double else return infinity
  else
    let slope := (q.y - p.y) * (← (q.x - p.x).invert)
    return opposite slope p (slope.square - p.x - q.x)

/-- `p - q`. -/
def sub (p q : Point) : Except Error Point := p.add q.neg

end Secp256k1.Point
