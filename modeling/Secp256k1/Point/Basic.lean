import Secp256k1.FieldElement

/-!
Points of the curve.

A finite point is stored as affine coordinates or as Jacobian ones, where `(x, y, z)` stands for
the affine point `(x / z², y / z³)`. Beside them a point carries a fingerprint, `(x + y)²` of
the stored coordinates. Points are made through `infinity`, `ofAffine` and `ofJacobian` only;
they keep what `WellFormed` says. Whether the coordinates satisfy the equation of the curve is
another matter, and is checked where it is needed.
-/

namespace Secp256k1

/-- The two ways to store a finite point. -/
inductive CoordinateSystem where
  | affine
  | jacobian
  deriving DecidableEq, Inhabited

/-- How the coordinates of a point are to be read. -/
inductive Point.Form where
  | infinity
  | affine
  | jacobian
  deriving DecidableEq, Inhabited

structure Point where
  x : FieldElement
  y : FieldElement
  z : FieldElement
  form : Point.Form
  fingerprint : FieldElement
  deriving DecidableEq, Inhabited

namespace Point

/-- `(x + y)²`. -/
def fingerprintOf (x y : FieldElement) : FieldElement := (x + y).square

/-- `x³ + 7`, which is `y²` on the curve. -/
def curveRhs (x : FieldElement) : FieldElement := x.square * x + .ofWord Parameters.b

/-- The neutral element of the group. -/
def infinity : Point := ⟨.zero, .zero, .zero, .infinity, .zero⟩

/-- The point with the given affine coordinates, on the curve or not. -/
def ofAffine (x y : FieldElement) : Point := ⟨x, y, .one, .affine, fingerprintOf x y⟩

/-- The point with the given Jacobian coordinates; `z = 0` stands for infinity. -/
def ofJacobian (x y z : FieldElement) : Point :=
  if z.isZero then infinity else ⟨x, y, z, .jacobian, fingerprintOf x y⟩

def isInfinity (p : Point) : Bool := p.form == .infinity

/-- The coordinate system of a point; infinity counts as affine. -/
def system (p : Point) : CoordinateSystem :=
  match p.form with
  | .infinity | .affine => .affine
  | .jacobian => .jacobian

/-- What every point satisfies, whichever way it was made. -/
structure WellFormed (p : Point) : Prop where
  x_canonical : p.x.IsCanonical
  y_canonical : p.y.IsCanonical
  z_canonical : p.z.IsCanonical
  infinity : p.form = .infinity → p = Point.infinity
  fingerprint : p.fingerprint = fingerprintOf p.x p.y
  affine : p.form = .affine → p.z = .one
  jacobian : p.form = .jacobian → p.z ≠ .zero

/-- The same point in affine coordinates. -/
def toAffine (p : Point) : Point :=
  match p.form with
  | .infinity => infinity
  | .affine => p
  | .jacobian =>
    if p.z.isZero then infinity
    else
      let i := p.z.invertOrZero
      let i2 := i.square
      ofAffine (p.x * i2) (p.y * (i2 * i))

/-- The bytes of the affine `x`, all zero for infinity. -/
def xBytes (p : Point) : Vector UInt8 32 := p.toAffine.x.toBytes

/-- The bytes of the affine `y`, all zero for infinity. -/
def yBytes (p : Point) : Vector UInt8 32 := p.toAffine.y.toBytes

/-- The names and texts of the coordinates that are shown. -/
def shownCoordinates (p : Point) : List (String × String) :=
  [("x", p.x.describe), ("y", p.y.describe)] ++
    match p.system with
    | .affine => []
    | .jacobian => [("z", p.z.describe)]

/-- The text on one line. -/
def describe (p : Point) : String :=
  if p.isInfinity then "CurvePoint(Infinity)"
  else
    "CurvePoint \x7b " ++
      ", ".intercalate (p.shownCoordinates.map fun (name, text) => name ++ ": " ++ text) ++ " \x7d"

/-- The text with a line for each coordinate. -/
def describeLines (p : Point) : String :=
  if p.isInfinity then "CurvePoint(Infinity)"
  else
    "CurvePoint \x7b\n" ++
      String.join (p.shownCoordinates.map fun (name, text) =>
        "    " ++ name ++ ": " ++ text ++ ",\n") ++ "\x7d"

end Point

end Secp256k1
