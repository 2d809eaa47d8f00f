import SlotLang.Fault
import SlotLang.Symbol.Signature

/-!
# Typing rules

Each rule gives the type that a construct produces, or the fault that it is to be refused for.  The
rules are applied while code is produced, and what happens after a fault is for the construct to
say.
-/

namespace SlotLang
namespace Typing

/-- A rule without a result: the condition holds, or there is the given fault. -/
def require (condition : Bool) (fault : Fault) : Except Fault Unit :=
  if condition then .ok () else .error fault

/-- Operands of one type can be compared. -/
def relational (left right : Ty) : Except Fault Ty :=
  if left = right then .ok .bool else .error .incompatibleTypes

def arithmetic (left right : Ty) : Except Fault Ty :=
  if left = .int ∧ right = .int then .ok .int else .error .integerExpected

def negation (operand : Ty) : Except Fault Ty :=
  if operand = .int then .ok .int else .error .integerExpected

/-- The condition of a branch or a loop. -/
def condition (ty : Ty) : Except Fault Unit :=
  require (ty = .bool) .booleanExpected

/-- The guard of a conditional assignment. -/
def guardValue (ty : Ty) : Except Fault Unit :=
  require (ty = .bool) .booleanGuardExpected

def assignable (target : Resolved) : Except Fault Unit :=
  require (target.symbol.kind = .var) .assignToNonVariable

def assignment (target value : Ty) : Except Fault Unit :=
  require (target = value) .incompatibleTypes

/-- Only a variable of type integer can be read into. -/
def readable (target : Resolved) : Except Fault Unit :=
  let s := target.symbol
  if s.kind ≠ .var then .error (.readKindMismatch s.name s.kind.name)
  else require (s.ty = .int) (.readTypeMismatch s.name s.ty.name)

def writable (ty : Ty) : Except Fault Unit :=
  require (ty = .int) .integerExpected

def caseLabel (subject label : Ty) : Except Fault Unit :=
  require (subject = label) .caseTypeMismatch

/-- The operand of a load has to have storage. -/
def loadable (target : Resolved) : Except Fault Ty :=
  if target.symbol.kind.hasStorage then .ok target.symbol.ty else .error .variableExpected

def callable (target : Resolved) : Except Fault Unit :=
  require (target.symbol.kind = .procedure) .notAProcedure

/-- Compares argument types with parameter types from the given index on; the first pair that
differs is the fault. -/
def argumentTypes (name : String) : Nat → List Ty → List Ty → Except Fault Unit
  | index, param :: params, arg :: args =>
      if param = arg then argumentTypes name (index + 1) params args
      else .error (.argumentTypeMismatch name index param.name arg.name)
  | _, _, _ => .ok ()

/-- The arguments of a call: first their number, then their types in order. -/
def arguments (signature : Signature) (args : List Ty) : Except Fault Unit :=
  if signature.params.length = args.length then
    argumentTypes signature.name 1 signature.params args
  else
    .error (.argumentCountMismatch signature.name signature.params.length args.length)

end Typing
end SlotLang
