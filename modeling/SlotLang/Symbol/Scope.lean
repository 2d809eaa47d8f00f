import SlotLang.Symbol

/-!
# Scopes

The symbols declared at one level, in the order of their declarations.  A name may be declared more
than once, and the latest declaration wins.  The number of storage slots taken so far is kept beside
the symbols, since every declaration asks for it.
-/

namespace SlotLang

structure Scope where
  /-- The symbols, the latest first. -/
  entries : List Symbol
  /-- The number of symbols with storage. -/
  slots : Nat
  slots_eq : slots = entries.countP (·.kind.hasStorage)

namespace Scope

def empty : Scope := ⟨[], 0, rfl⟩

def push (scope : Scope) (s : Symbol) : Scope where
  entries := s :: scope.entries
  slots := if s.kind.hasStorage then scope.slots + 1 else scope.slots
  slots_eq := by
    rw [List.countP_cons, scope.slots_eq]
    split <;> rfl

/-- The symbols in the order of their declarations. -/
def symbols (scope : Scope) : List Symbol := scope.entries.reverse

def size (scope : Scope) : Nat := scope.entries.length

def isEmpty (scope : Scope) : Bool := scope.entries.isEmpty

def lookup (scope : Scope) (name : String) : Option Symbol :=
  scope.entries.find? fun s => s.name = name

@[ext] theorem ext {a b : Scope} (h : a.entries = b.entries) : a = b := by
  cases a with
  | mk entries slots slots_eq =>
    cases b with
    | mk entries' slots' slots_eq' =>
      subst slots_eq slots_eq'
      cases h
      rfl

@[simp] theorem symbols_empty : empty.symbols = [] := rfl

@[simp] theorem symbols_push (scope : Scope) (s : Symbol) :
    (scope.push s).symbols = scope.symbols ++ [s] := by
  simp [symbols, push]

end Scope
end SlotLang
