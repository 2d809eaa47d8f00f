import SlotLang.Lowering.Program

/-!
# Resolved programs

The tree of a program names its variables; what a name denotes depends on the scopes that are open
where it stands, and they grow while the tree is walked over.  This module has a second syntax in
which that question is settled: every occurrence of a name carries the scopes of its place, and
tokens, parentheses and declarations are gone.  Statements become actions, procedures routines.

The second half is the code of such a program.  It is written down directly, label by label, and
every instruction of it remembers its origin: the use of a name that it loads or stores, the
parameter that it fills, the call or the routine that it stands for.
-/

namespace SlotLang

/-- One cell of storage, seen from the routine that accesses it. -/
inductive Cell where
  | frame (level offset : Nat)
  | global (address : Address)
  deriving DecidableEq, Repr

namespace Cell

def loadOp : Cell → Op
  | frame level offset => .load level offset
  | global address => .loadGlobal address

def storeOp : Cell → Op
  | frame level offset => .store level offset
  | global address => .storeGlobal address

end Cell

/-- The cell of a symbol whose frame is `level` frames away. -/
def Resolved.cell (target : Resolved) (level : Nat) : Cell :=
  match target.storage with
  | .global address => .global address
  | .frame offset => .frame level offset

theorem Resolved.loadOp_eq (target : Resolved) (level : Nat) :
    target.loadOp level = (target.cell level).loadOp := by
  unfold loadOp cell
  cases target.storage <;> rfl

theorem Resolved.storeOp_eq (target : Resolved) (level : Nat) :
    target.storeOp level = (target.cell level).storeOp := by
  unfold storeOp cell
  cases target.storage <;> rfl

/-- An occurrence of a name, with the scopes that are open where it stands. -/
structure Use where
  name : String
  scopes : ScopeStack

namespace Use

def target? (u : Use) : Option Resolved := u.scopes.resolve u.name

/-- The cell that the name stands for; it is of no importance where the name denotes nothing. -/
def cell (u : Use) : Cell :=
  match u.target? with
  | some target => target.cell (u.scopes.dataLevel target.symbol)
  | none => .frame 0 0

def callOp (u : Use) : Op :=
  match u.target? with
  | some target =>
      .call (u.scopes.callLevel target.symbol) (.named (callLabel u.scopes target))
  | none => .nop

end Use

/-! ## Terms, actions and routines -/

inductive Term where
  | number (value : Int)
  | boolean (value : Bool)
  | use (u : Use)
  | negation (operand : Term)
  | arithmetic (op : ArithOp) (left right : Term)
  | comparison (op : Comparison) (left right : Term)

mutual

inductive Action where
  | skip
  /-- Stores a value into a symbol of the given kind: a constant is stored into once, where it is
  declared. -/
  | store (kind : SymbolKind) (target : Use) (value : Term)
  | choose (target : Use) (guard first second : Term)
  | call (callee : Use) (arguments : List Term) (signatures : Signatures)
  | read (target : Use)
  | write (value : Term)
  | seq (first second : Action)
  | branch (test : Term) (body alternative : Action)
  | loop (test : Term) (body : Action)
  /-- The rounds of a counting loop: test, step, body. -/
  | rounds (test : Term) (target : Use) (step : Term) (body : Action)
  | switch (subject : Term) (cases : Cases) (fallback : Action)

inductive Cases where
  | none
  | case (label : Term) (body : Action) (rest : Cases)

end

/-- The body of a routine.  A nested routine has its label, its parameters, its scope as it is at the
end of the body, and a body of its own. -/
inductive Body where
  | done
  | action (a : Action) (rest : Body)
  | nested (label : String) (params : List (String × Ty)) (frame : Scope) (inner rest : Body)

structure Routine where
  label : String
  params : List (String × Ty)
  frame : Scope
  body : Body

/-- What a program consists of, besides its names: the initial values of its constants, and its
routines. -/
inductive Part where
  | action (a : Action)
  | routine (r : Routine)

/-! ## Names in terms and actions -/

/-- Every occurrence of a name in the term has the property. -/
def Term.Uses (P : Use → Prop) : Term → Prop
  | number _ | boolean _ => True
  | use u => P u
  | negation operand => operand.Uses P
  | arithmetic _ left right | comparison _ left right => left.Uses P ∧ right.Uses P

mutual

def Action.Uses (P : Use → Prop) : Action → Prop
  | .skip => True
  | .store _ target value => P target ∧ value.Uses P
  | .choose target guard first second =>
      P target ∧ guard.Uses P ∧ first.Uses P ∧ second.Uses P
  | .call callee arguments _ => P callee ∧ ∀ t ∈ arguments, t.Uses P
  | .read target => P target
  | .write value => value.Uses P
  | .seq first second => first.Uses P ∧ second.Uses P
  | .branch test body alternative => test.Uses P ∧ body.Uses P ∧ alternative.Uses P
  | .loop test body => test.Uses P ∧ body.Uses P
  | .rounds test target step body => test.Uses P ∧ P target ∧ step.Uses P ∧ body.Uses P
  | .switch subject cases fallback => subject.Uses P ∧ cases.Uses P ∧ fallback.Uses P

def Cases.Uses (P : Use → Prop) : Cases → Prop
  | .none => True
  | .case label body rest => label.Uses P ∧ body.Uses P ∧ rest.Uses P

end

/-! ## Labels -/

mutual

/-- The number of labels that the code of an action draws. -/
def Action.labels : Action → Nat
  | .skip | .store _ _ _ | .call _ _ _ | .read _ | .write _ => 0
  | .choose _ _ _ _ => 2
  | .seq first second => first.labels + second.labels
  | .branch _ body alternative => body.labels + alternative.labels + 2
  | .loop _ body => body.labels + 2
  | .rounds _ _ _ body => body.labels + 3
  | .switch _ cases fallback => cases.labels + fallback.labels + 1

def Cases.labels : Cases → Nat
  | .none => 0
  | .case _ body rest => body.labels + rest.labels + 1

end

def Body.labels : Body → Nat
  | .done => 0
  | .action a rest => a.labels + rest.labels
  | .nested _ _ _ inner rest => inner.labels + rest.labels + 1

def Part.labels : Part → Nat
  | .action a => a.labels
  | .routine r => r.body.labels

/-! ## Code -/

inductive Origin where
  /-- An operation, a jump or a landing: it has no name behind it. -/
  | control
  | use (u : Use)
  | parameter (index : Nat)
  | call (callee : Use) (arguments : List Term) (signatures : Signatures)
  | routine (r : Routine)

structure Emitted where
  instruction : Instruction
  origin : Origin

namespace Emitted

def op (x : Emitted) : Op := x.instruction.op

def plain (op : Op) : Emitted := ⟨.plain op, .control⟩

def landing (n : Nat) : Emitted := ⟨.landing (.fresh n), .control⟩

def jump (n : Nat) : Emitted := plain (.jump (.fresh n))

def jumpUnless (n : Nat) : Emitted := plain (.jumpUnless (.fresh n))

def load (u : Use) : Emitted := ⟨.plain u.cell.loadOp, .use u⟩

def store (u : Use) : Emitted := ⟨.plain u.cell.storeOp, .use u⟩

/-- The instruction that stores an argument of a call into the slot of its parameter. -/
def argument (k : Nat) : Emitted := ⟨.plain (.store 0 k), .parameter k⟩

@[simp] theorem plain_instruction (op : Op) : (plain op).instruction = .plain op := rfl

@[simp] theorem landing_instruction (n : Nat) :
    (landing n).instruction = .landing (.fresh n) := rfl

@[simp] theorem jump_instruction (n : Nat) :
    (jump n).instruction = .plain (.jump (.fresh n)) := rfl

@[simp] theorem jumpUnless_instruction (n : Nat) :
    (jumpUnless n).instruction = .plain (.jumpUnless (.fresh n)) := rfl

@[simp] theorem argument_instruction (k : Nat) :
    (argument k).instruction = .plain (.store 0 k) := rfl

end Emitted

open Emitted

/-- The instructions of emitted code. -/
def erase (code : List Emitted) : List Instruction := code.map (·.instruction)

@[simp] theorem erase_nil : erase [] = [] := rfl

@[simp] theorem erase_cons (x : Emitted) (code : List Emitted) :
    erase (x :: code) = x.instruction :: erase code := rfl

@[simp] theorem erase_append (first second : List Emitted) :
    erase (first ++ second) = erase first ++ erase second := by
  simp [erase]

def Term.code : Term → List Emitted
  | number value => [plain (.const value)]
  | boolean value => [plain (.const (if value then 1 else 0))]
  | use u => [load u]
  | negation operand => operand.code ++ [plain .neg, plain (.const 1), plain (.arith .add)]
  | arithmetic op left right => left.code ++ right.code ++ [plain (.arith op)]
  | comparison op left right => left.code ++ right.code ++ [plain (.compare op)]

mutual

/-- The code of an action whose first label has the number `n`. -/
def Action.code : Action → Nat → List Emitted
  | .skip, _ => []
  | .store _ target value, _ => value.code ++ [Emitted.store target]
  | .choose target guard first second, n =>
      guard.code ++ [jumpUnless n] ++ first.code ++
        [Emitted.store target, jump (n + 1), landing n] ++ second.code ++
        [Emitted.store target, landing (n + 1)]
  | .call callee arguments signatures, _ =>
      arguments.flatMap Term.code ++
        [⟨.plain callee.callOp, .call callee arguments signatures⟩]
  | .read target, _ => [plain .read, Emitted.store target]
  | .write value, _ => value.code ++ [plain .write]
  | .seq first second, n => first.code n ++ second.code (n + first.labels)
  | .branch test body alternative, n =>
      test.code ++ [jumpUnless n] ++ body.code (n + 1) ++
        [jump (n + 1 + body.labels), landing n] ++ alternative.code (n + 2 + body.labels) ++
        [landing (n + 1 + body.labels)]
  | .loop test body, n =>
      [landing n] ++ test.code ++ [jumpUnless (n + 1)] ++ body.code (n + 2) ++
        [jump n, landing (n + 1)]
  | .rounds test target step body, n =>
      [jump n, landing (n + 1)] ++ test.code ++ step.code ++
        [Emitted.store target, jumpUnless (n + 2)] ++ body.code (n + 3) ++
        [landing n, jump (n + 1), landing (n + 2)]
  | .switch subject cases fallback, n =>
      cases.code subject n (n + 1) ++ fallback.code (n + 1 + cases.labels) ++ [landing n]

/-- The code of the cases of a switch that is left through the label `exit`. -/
def Cases.code : Cases → Term → Nat → Nat → List Emitted
  | .none, _, _, _ => []
  | .case label body rest, subject, exit, n =>
      subject.code ++ label.code ++ [plain (.compare .equ), jumpUnless n] ++ body.code (n + 1) ++
        [jump exit, landing n] ++ rest.code subject exit (n + 1 + body.labels)

end

namespace Routine

/-- The first instruction of a routine makes its frame. -/
def entry (r : Routine) : Emitted :=
  ⟨.labelled (.named r.label) (.enter r.frame.slots), .routine r⟩

/-- The stores that take the arguments of a call from the stack, the last one first. -/
def prologue (count : Nat) : List Emitted := (List.range count).reverse.map argument

/-- The code of a routine around the code of its body. -/
def around (r : Routine) (body : List Emitted) : List Emitted :=
  r.entry :: (prologue r.params.length ++ body ++ [plain .leave, plain .ret])

end Routine

def Body.code : Body → Nat → List Emitted
  | .done, _ => []
  | .action a rest, n => a.code n ++ rest.code (n + a.labels)
  | .nested label params frame inner rest, n =>
      [jump n] ++ Routine.around ⟨label, params, frame, inner⟩ (inner.code (n + 1)) ++
        [landing n] ++ rest.code (n + 1 + inner.labels)

def Part.code : Part → Nat → List Emitted
  | .action a, n => a.code n
  | .routine r, n => r.around (r.body.code n)

/-- The code of the parts of a program, in their order. -/
def partsCode : List Part → Nat → List Emitted
  | [], _ => []
  | part :: parts, n => part.code n ++ partsCode parts (n + part.labels)

end SlotLang
