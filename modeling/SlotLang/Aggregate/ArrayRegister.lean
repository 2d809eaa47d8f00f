import SlotLang.Symbol

/-!
# Declared arrays

Two arrays are told apart by their name, the type of their elements and the number of their
dimensions; the bounds play no part.
-/

namespace SlotLang
namespace Aggregate

structure ArrayKey where
  name : String
  ty : Ty
  dimensions : Nat
  deriving DecidableEq, Repr

structure ArrayRegister where
  declared : List ArrayKey
  deriving DecidableEq, Repr

namespace ArrayRegister

def empty : ArrayRegister := ⟨[]⟩

def contains (register : ArrayRegister) (key : ArrayKey) : Bool :=
  register.declared.any fun other => other = key

def insert (register : ArrayRegister) (key : ArrayKey) : ArrayRegister :=
  if register.contains key then register else ⟨key :: register.declared⟩

end ArrayRegister
end Aggregate
end SlotLang
