import SlotLang.Symbol.Scope

/-!
# The stack of open scopes

Scopes nest: the program has one, and every procedure opens another inside the one it is declared
in.  The depth is the number of open scopes, one inside the program and two inside a procedure of
the program.  A name denotes its latest declaration in the innermost scope that has one; names
declared as external come last.

A procedure is labelled by the names of all procedures open around it, outermost first, and its own.
A call composes the same label from the procedures that are open at the call: the distance between
the call and the declaration says how many of the innermost to leave out.
-/

namespace SlotLang

structure ScopeStack where
  /-- The open scopes, the innermost first. -/
  scopes : List Scope
  externals : Scope
  /-- The names of the open procedures, the innermost first. -/
  openProcedures : List String

namespace ScopeStack

def empty : ScopeStack := ⟨[], .empty, []⟩

def depth (st : ScopeStack) : Nat := st.scopes.length

def openScope (st : ScopeStack) : ScopeStack :=
  { st with scopes := .empty :: st.scopes }

def closeScope (st : ScopeStack) : Option Scope × ScopeStack :=
  (st.scopes.head?, { st with scopes := st.scopes.tail })

def current? (st : ScopeStack) : Option Scope := st.scopes.head?

def global? (st : ScopeStack) : Option Scope := st.scopes.getLast?

/-! ## Declarations -/

/-- A declaration needs a scope to go to: if none is open, the outermost one is opened. -/
def ensureScope (st : ScopeStack) : ScopeStack :=
  if st.scopes.isEmpty then st.openScope else st

def pushCurrent (st : ScopeStack) (s : Symbol) : ScopeStack :=
  match st.scopes with
  | [] => st
  | scope :: outer => { st with scopes := scope.push s :: outer }

/-- Adds a symbol to the last of a list of scopes. -/
def pushLast (s : Symbol) : List Scope → List Scope
  | [] => []
  | [scope] => [scope.push s]
  | scope :: outer => scope :: pushLast s outer

/-- The number of slots taken in a scope, if there is one. -/
def slotCount (scope : Option Scope) : Nat :=
  match scope with
  | some scope => scope.slots
  | none => 0

/-- Declares a name in the innermost scope, at its next free slot. -/
def declareLocal (st : ScopeStack) (name : String) (kind : SymbolKind) (ty : Ty) :
    Symbol × ScopeStack :=
  let st := st.ensureScope
  let s : Symbol := ⟨name, kind, ty, st.depth - 1, some (slotCount st.current?)⟩
  (s, st.pushCurrent s)

/-- Declares a name in the scope of the program, at its next free slot. -/
def declareGlobal (st : ScopeStack) (name : String) (kind : SymbolKind) (ty : Ty) :
    Symbol × ScopeStack :=
  let st := st.ensureScope
  let s : Symbol := ⟨name, kind, ty, 0, some (slotCount st.global?)⟩
  (s, { st with scopes := pushLast s st.scopes })

/-- Declares a name that is defined elsewhere. -/
def declareExternal (st : ScopeStack) (name : String) (kind : SymbolKind) (ty : Ty) :
    Symbol × ScopeStack :=
  let s : Symbol := ⟨name, kind, ty, 1, if kind = .procedure then none else some 0⟩
  (s, { st with externals := st.externals.push s })

/-- Declares a procedure in the scope around its body. -/
def declareProcedure (st : ScopeStack) (name : String) : Symbol × ScopeStack :=
  let st := st.ensureScope
  let s : Symbol := ⟨name, .procedure, .undefined, st.depth, none⟩
  (s, st.pushCurrent s)

/-- Declares a constant or a variable: in the program's scope at the outermost level, else in the
innermost one. -/
def declareStorage (st : ScopeStack) (name : String) (kind : SymbolKind) (ty : Ty) :
    Symbol × ScopeStack :=
  if st.depth ≤ 1 then st.declareGlobal name kind ty else st.declareLocal name kind ty

/-! ## Names -/

def resolve (st : ScopeStack) (name : String) : Option Resolved :=
  match st.scopes.findSome? fun scope => scope.lookup name with
  | some s => some ⟨s, false⟩
  | none => (st.externals.lookup name).map fun s => ⟨s, true⟩

/-- The number of frames between this place and the frame that stores a symbol. -/
def dataLevel (st : ScopeStack) (s : Symbol) : Nat :=
  (st.depth - s.frameDepth) + (s.frameDepth - st.depth) - 1

/-- The number of static links between this place and the declaration of a procedure. -/
def callLevel (st : ScopeStack) (s : Symbol) : Nat :=
  (st.depth - s.frameDepth) + (s.frameDepth - st.depth)

/-! ## Procedures -/

def joinNames (names : List String) : String :=
  "$".intercalate names

/-- The label of a procedure that is declared here. -/
def labelFor (st : ScopeStack) (name : String) : String :=
  joinNames (st.openProcedures.reverse ++ [name])

/-- The label that a call has to name for a procedure declared `level` levels out. -/
def labelForCall (st : ScopeStack) (level : Nat) (name : String) : String :=
  joinNames ((st.openProcedures.drop level).reverse ++ [name])

/-- Opens the body of a procedure and gives its label. -/
def enterProcedure (st : ScopeStack) (name : String) : String × ScopeStack :=
  (st.labelFor name, { st.openScope with openProcedures := name :: st.openProcedures })

/-- Closes the body of the innermost procedure and gives its scope. -/
def exitProcedure (st : ScopeStack) : Option Scope × ScopeStack :=
  { st with openProcedures := st.openProcedures.tail }.closeScope

end ScopeStack
end SlotLang
