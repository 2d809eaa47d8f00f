import SlotLang.Aggregate.ArrayRegister
import SlotLang.Aggregate.Struct
import SlotLang.Code.Storage
import SlotLang.Diagnostic.Reporter
import SlotLang.Grammar.Terminal
import SlotLang.Symbol.ScopeStack
import SlotLang.Typing

/-!
# Lowering

Lowering walks over a tree from left to right and turns it into code.  It carries an environment:
the names declared so far, the supply of labels, and the last token passed, where faults of
meaning are placed.  It gives back what it has produced, code and events, and not a place to
which it wrote them: so the code of a phrase is a value, and a phrase cannot touch the code of
another.

Faults never stop lowering.  A construct that was refused for its types still produces code, in
general the code that it would have produced without the fault.
-/

namespace SlotLang

/-- What has been declared so far. -/
structure Env where
  scopes : ScopeStack
  structs : Aggregate.StructTable
  arrays : Aggregate.ArrayRegister
  signatures : Signatures
  /-- The number of labels drawn from the supply. -/
  nextLabel : Nat
  /-- The token passed last. -/
  last : Token

namespace Env

def start (first : Token) : Env := ⟨.empty, .empty, .empty, .empty, 0, first⟩

end Env

/-- The result of lowering a phrase. -/
structure Outcome (α : Type) where
  value : α
  code : List Instruction
  events : List Event
  env : Env

def Lowering (α : Type) : Type := Env → Outcome α

namespace Lowering

def result {α : Type} (a : α) : Lowering α := fun env => ⟨a, [], [], env⟩

/-- One phrase after the other: their code and their events follow each other. -/
def andThen {α β : Type} (x : Lowering α) (f : α → Lowering β) : Lowering β := fun env =>
  let first := x env
  let second := f first.value first.env
  ⟨second.value, first.code ++ second.code, first.events ++ second.events, second.env⟩

instance : Monad Lowering where
  pure := result
  bind := andThen

@[simp] theorem pure_apply {α : Type} (a : α) (env : Env) :
    (pure a : Lowering α) env = ⟨a, [], [], env⟩ := rfl

@[simp] theorem bind_apply {α β : Type} (x : Lowering α) (f : α → Lowering β) (env : Env) :
    (x >>= f) env =
      ⟨(f (x env).value (x env).env).value, (x env).code ++ (f (x env).value (x env).env).code,
        (x env).events ++ (f (x env).value (x env).env).events,
        (f (x env).value (x env).env).env⟩ := rfl

/-! ## The environment -/

def env : Lowering Env := fun env => ⟨env, [], [], env⟩

def modifyEnv (f : Env → Env) : Lowering Unit := fun env => ⟨(), [], [], f env⟩

/-- Changes the scopes and gives what the change gives. -/
def withScopes {α : Type} (f : ScopeStack → α × ScopeStack) : Lowering α := fun env =>
  let (a, scopes) := f env.scopes
  ⟨a, [], [], { env with scopes := scopes }⟩

def freshLabel : Lowering Label := fun env =>
  ⟨.fresh env.nextLabel, [], [], { env with nextLabel := env.nextLabel + 1 }⟩

/-! ## Code -/

def emitAll (code : List Instruction) : Lowering Unit := fun env => ⟨(), code, [], env⟩

def emit (op : Op) : Lowering Unit := emitAll [.plain op]

def land (label : Label) : Lowering Unit := emitAll [.landing label]

/-- Gives the code of a phrase in place of producing it. -/
def captured {α : Type} (x : Lowering α) : Lowering (α × List Instruction) := fun env =>
  let o := x env
  ⟨(o.value, o.code), [], o.events, o.env⟩

/-! ## Events -/

def consume (token : Token) : Lowering Unit := fun env =>
  ⟨(), [], [.consumed], { env with last := token }⟩

/-- Places a fault of the grammar at the token in front of which it was noticed. -/
def refuseBefore (next : Token) (fault : Fault) : Lowering Unit := fun env =>
  ⟨(), [], [.fault ⟨fault, next.start⟩], env⟩

/-- Places a fault of meaning at the token passed last. -/
def refuse (fault : Fault) : Lowering Unit := fun env =>
  ⟨(), [], [.fault ⟨fault, env.last.start⟩], env⟩

def warn (message : String) : Lowering Unit := fun env =>
  ⟨(), [], [.warning message env.last.start], env⟩

/-- Reports the fault that a rule finds. -/
def check {α : Type} (rule : Except Fault α) : Lowering Unit :=
  match rule with
  | .ok _ => pure ()
  | .error fault => refuse fault

/-- Passes a token that no item of a list can start with. -/
def skip (production : String) (token : Token) : Lowering Unit := do
  refuseBefore token (.invalid production)
  consume token

/-! ## Names -/

/-- Looks a name up; it is a fault if there is none. -/
def resolve (name : String) : Lowering (Option Resolved) := do
  let found := (← env).scopes.resolve name
  if found.isNone then refuse (.undefinedVariable name)
  return found

def load (target : Resolved) : Lowering Unit := do
  emit (target.loadOp ((← env).scopes.dataLevel target.symbol))

def store (target : Resolved) : Lowering Unit := do
  emit (target.storeOp ((← env).scopes.dataLevel target.symbol))

end Lowering

def Terminal.lower : Terminal → Lowering Unit
  | read token => Lowering.consume token
  | missing kind next => Lowering.refuseBefore next (.expected kind.describe)

end SlotLang
