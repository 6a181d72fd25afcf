import Secp256k1.Point.Basic

/-!
Sums and doubles in Jacobian coordinates.

Nothing is inverted here, so a factor hidden in `z` stays in every intermediate value. Any
triple with `z = 0` stands for infinity. A chord between opposite points gives such a triple by
itself; equal operands and infinite ones are told apart.
-/

namespace Secp256k1

structure JacobianPoint where
  x : FieldElement
  y : FieldElement
  z : FieldElement
  deriving DecidableEq, Inhabited

namespace JacobianPoint

def infinity : JacobianPoint := ⟨.one, .one, .zero⟩

/-- The triple of a point; a Jacobian point keeps its `z`. -/
def ofPoint (p : Point) : JacobianPoint :=
  match p.form with
  | .infinity => infinity
  | .affine => ⟨p.x, p.y, .one⟩
  | .jacobian => ⟨p.x, p.y, p.z⟩

/-- The point of a triple, not brought to affine form. -/
def toPoint (p : JacobianPoint) : Point := .ofJacobian p.x p.y p.z

@[inline] def isInfinity (p : JacobianPoint) : Bool := p.z.isZero

/-- `p + p`, with seven squares and products. Infinity goes to infinity. -/
def double (p : JacobianPoint) : JacobianPoint :=
  let a := p.x.square
  let b := p.y.square
  let c := b.square
  let d := ((p.x + b).square - a - c).double
  let e := a.double + a
  let f := e.square
  let x3 := f - d.double
  ⟨x3, e * (d - x3) - c.double.double.double, (p.y * p.z).double⟩

/-- `p + q` along the chord through both. It is the sum unless the two are equal or one of them
is infinite. The fields `h` and `r` are the differences of the scaled abscissas and ordinates. -/
structure Chord where
  h : FieldElement
  r : FieldElement
  sum : JacobianPoint

def chord (p q : JacobianPoint) : Chord :=
  let z1 := p.z.square
  let z2 := q.z.square
  let u1 := p.x * z2
  let u2 := q.x * z1
  let s1 := p.y * z2 * q.z
  let s2 := q.y * z1 * p.z
  let h := u2 - u1
  let r := s2 - s1
  let h2 := h.square
  let h3 := h2 * h
  let v := u1 * h2
  let x3 := r.square - h3 - v.double
  ⟨h, r, ⟨x3, r * (v - x3) - s1 * h3, p.z * q.z * h⟩⟩

/-- `p + q` for any operands. -/
def add (p q : JacobianPoint) : JacobianPoint :=
  let c := chord p q
  if q.isInfinity then p
  else if p.isInfinity then q
  else if c.h.isZero && c.r.isZero then p.double
  else c.sum

end JacobianPoint

end Secp256k1
