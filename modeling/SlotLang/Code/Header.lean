import SlotLang.Code
import SlotLang.Symbol.Scope

/-!
# The header of a listing

The header counts all names of the program's scope and all external names, and then declares them:
variables and procedures of the program in the order of their declarations, then the external ones.
Constants of the program are counted and not declared.
-/

namespace SlotLang

def globalDirective? (s : Symbol) : Option Directive :=
  match s.kind with
  | .var => some (.var s.ty s.name)
  | .procedure => some (.proc s.name)
  | .const | .struct => none

def externalDirective? (s : Symbol) : Option Directive :=
  match s.kind with
  | .var => some (.externalVar s.ty s.name)
  | .procedure => some (.externalProc s.name)
  | .const => some (.externalConst s.ty s.name)
  | .struct => none

def headerDirectives (globals externals : Scope) : List Directive :=
  .names (globals.size + externals.size) ::
    (globals.symbols.filterMap globalDirective? ++ externals.symbols.filterMap externalDirective?)

def header (globals externals : Scope) : List Instruction :=
  (headerDirectives globals externals).map fun d => .plain (.directive d)

end SlotLang
