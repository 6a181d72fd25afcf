/-!
Types with finitely many values, each of which has a name.
-/

namespace Secp256k1

class Named (α : Type) where
  all : List α
  name : α → String

/-- The value with a given name. -/
def Named.ofName? {α : Type} [Named α] (text : String) : Option α :=
  (Named.all (α := α)).find? fun a => Named.name a == text

end Secp256k1
