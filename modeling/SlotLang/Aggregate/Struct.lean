import SlotLang.Symbol

/-!
# Structs

A struct is defined by its scalar members, each with a dotted path below the struct.  A member that
is itself a struct is replaced by the members of that struct, so a definition is flat from the
start.  Definitions are kept by name, and the first one of a name stays.
-/

namespace SlotLang
namespace Aggregate

structure Member where
  path : String
  ty : Ty
  kind : SymbolKind
  deriving DecidableEq, Repr

/-- The same member, one level further down. -/
def Member.under (owner : String) (m : Member) : Member :=
  { m with path := owner ++ "." ++ m.path }

structure StructDef where
  name : String
  members : List Member
  deriving DecidableEq, Repr

namespace StructDef

def new (name : String) : StructDef := ⟨name, []⟩

def addMember (d : StructDef) (path : String) (ty : Ty) : StructDef :=
  { d with members := d.members ++ [⟨path, ty, .var⟩] }

/-- Adds all members of another struct below the path `owner`. -/
def embed (d : StructDef) (owner : String) (inner : StructDef) : StructDef :=
  { d with members := d.members ++ inner.members.map (Member.under owner) }

def member? (d : StructDef) (path : String) : Option Member :=
  d.members.find? fun m => m.path = path

/-- The scalars that an instance of a struct consists of. -/
def instanceMembers (d : StructDef) (owner : String) : List Member :=
  d.members.map (Member.under owner)

end StructDef

structure StructTable where
  defs : List StructDef
  deriving DecidableEq, Repr

namespace StructTable

def empty : StructTable := ⟨[]⟩

def get? (table : StructTable) (name : String) : Option StructDef :=
  table.defs.find? fun d => d.name = name

def isDefined (table : StructTable) (name : String) : Bool :=
  (table.get? name).isSome

/-- Adds a definition, unless its name is taken. -/
def define (table : StructTable) (d : StructDef) : StructTable :=
  if table.isDefined d.name then table else ⟨d :: table.defs⟩

def size (table : StructTable) : Nat := table.defs.length

end StructTable
end Aggregate
end SlotLang
