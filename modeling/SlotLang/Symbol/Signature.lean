import SlotLang.Symbol

/-!
# Signatures

The shape of a procedure, by which its calls are checked.  Signatures are kept by label, so that two
procedures of one name in different places have one each.
-/

namespace SlotLang

structure Signature where
  name : String
  params : List Ty
  result : Ty
  deriving DecidableEq, Repr

/-- Signatures by label; no label has two. -/
structure Signatures where
  entries : List (String × Signature)
  deriving DecidableEq, Repr

namespace Signatures

def empty : Signatures := ⟨[]⟩

def get? (table : Signatures) (label : String) : Option Signature :=
  table.entries.lookup label

/-- Keeps a signature, in place of an earlier one for the same label. -/
def register (table : Signatures) (label : String) (signature : Signature) : Signatures :=
  ⟨(label, signature) :: table.entries.filter fun entry => entry.1 ≠ label⟩

def size (table : Signatures) : Nat := table.entries.length

end Signatures
end SlotLang
