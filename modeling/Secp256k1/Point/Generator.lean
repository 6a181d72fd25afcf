import Secp256k1.Point.Basic

/-!
The point that generates the group of the curve.
-/

namespace Secp256k1.Point

def generator : Point := ofAffine ⟨Parameters.generatorX⟩ ⟨Parameters.generatorY⟩

end Secp256k1.Point
