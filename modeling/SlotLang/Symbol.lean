/-!
# Symbols

A symbol is a declared name: what it denotes, its type, and the address of its storage.  A symbol of
frame depth zero lives in global storage; any other lives in the frame of the procedure opened at
that depth.  Constants and variables have storage, procedures have none.
-/

namespace SlotLang

/-- What a name denotes. -/
inductive SymbolKind where
  | const
  | var
  | struct
  | procedure
  deriving DecidableEq, Repr

namespace SymbolKind

def name : SymbolKind → String
  | const => "const"
  | var => "var"
  | struct => "struct"
  | procedure => "procedure"

def all : List SymbolKind := [const, var, struct, procedure]

def hasStorage : SymbolKind → Bool
  | const | var => true
  | struct | procedure => false

end SymbolKind

/-- The type of a value.  The name of a struct is not part of its type. -/
inductive Ty where
  | undefined
  | int
  | bool
  | struct
  deriving DecidableEq, Repr

namespace Ty

def name : Ty → String
  | undefined => "undefined"
  | int => "int"
  | bool => "bool"
  | struct => "struct"

def all : List Ty := [undefined, int, bool, struct]

/-- The number that stands for a type in a directive. -/
def tag : Ty → Nat
  | undefined => 0
  | int => 1
  | bool => 2
  | struct => 3

end Ty

structure Symbol where
  name : String
  kind : SymbolKind
  ty : Ty
  frameDepth : Nat
  offset : Option Nat
  deriving DecidableEq, Repr

def Symbol.isGlobal (s : Symbol) : Bool := s.frameDepth == 0

/-- A symbol that a name was found to denote.  An external symbol is defined elsewhere and is
addressed by its name. -/
structure Resolved where
  symbol : Symbol
  external : Bool
  deriving DecidableEq, Repr

end SlotLang
