import SlotLang.Code

/-!
# Access to storage

The first slots of global storage hold registers of the machine, so global offsets are shifted past
them.  A symbol of a procedure is reached through its frame, by the number of frames to walk and an
offset; an external symbol by its name.
-/

namespace SlotLang

/-- The number of slots of global storage that the machine keeps for itself. -/
def reservedSlots : Nat := 3

/-- Where the value of a symbol is found. -/
inductive Storage where
  | global (address : Address)
  | frame (offset : Nat)
  deriving DecidableEq, Repr

def Resolved.storage (target : Resolved) : Storage :=
  let offset := target.symbol.offset.getD 0
  if target.external then .global (.name target.symbol.name)
  else if target.symbol.isGlobal then .global (.slot (offset + reservedSlots))
  else .frame offset

/-- The operation that pushes the value of a symbol. -/
def Resolved.loadOp (target : Resolved) (level : Nat) : Op :=
  match target.storage with
  | .global address => .loadGlobal address
  | .frame offset => .load level offset

/-- The operation that pops a value into a symbol. -/
def Resolved.storeOp (target : Resolved) (level : Nat) : Op :=
  match target.storage with
  | .global address => .storeGlobal address
  | .frame offset => .store level offset

end SlotLang
