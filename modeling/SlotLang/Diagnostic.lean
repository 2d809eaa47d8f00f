import SlotLang.Fault

/-!
# Diagnostics

What a report of a compilation lists: faults, and warnings, which are no faults and have a text of
their own.
-/

namespace SlotLang

inductive Diagnostic where
  | fault (e : PlacedFault)
  | warning (message : String) (position : Position)
  deriving DecidableEq, Repr

namespace Diagnostic

def position : Diagnostic → Position
  | fault e => e.position
  | warning _ p => p

def message : Diagnostic → String
  | fault e => e.fault.message
  | warning message _ => message

def severity : Diagnostic → String
  | fault e => e.fault.category.name
  | warning _ _ => "Warning"

def text (d : Diagnostic) : String :=
  messageLine d.position d.message

end Diagnostic
end SlotLang
