import SlotLang.Aggregate.Elements
import SlotLang.Grammar.Declaration
import SlotLang.Lowering.Expr

/-!
# Lowering declarations

A variable takes one slot for every scalar it consists of: the elements of an array, the members
of a struct, the members of the elements.  A declaration that would take more slots than the
limit takes none.  Declarations of variables and structs produce no code; a constant is computed
and stored where it is declared.
-/

namespace SlotLang

open Lowering Aggregate

def ScalarSpec.ty : ScalarSpec → Ty
  | read token => if token.kind = .kwInt then .int else .bool
  | missing _ => .undefined

def ScalarSpec.lower (s : ScalarSpec) : Lowering Ty := do
  match s with
  | read token => consume token
  | missing next => refuseBefore next (.invalid "Type")
  return s.ty

/-- A declared type: a scalar one, or a struct known by its name. -/
inductive DeclaredTy where
  | scalar (ty : Ty)
  | struct (name : String)
  deriving DecidableEq, Repr

/-- The type that tells arrays of one name apart. -/
def DeclaredTy.elementTy : DeclaredTy → Ty
  | scalar ty => ty
  | struct _ => .struct

def TypeSpec.lower : TypeSpec → Lowering DeclaredTy
  | scalar s => do return .scalar (← s.lower)
  | struct keyword name => do
      consume keyword
      name.lower
      return .struct name.valueD

/-- The bounds of an array.  One that cannot be read as a number counts as zero. -/
def lowerBounds : List Index → Lowering (List Nat)
  | [] => pure []
  | i :: more => do
      consume i.opening
      i.number.lower
      let bound ← match i.number with
        | .read token =>
            match Text.word? token.value with
            | some n => pure [n]
            | none => do
                refuse (.unreadableNumber token.value)
                pure [0]
        | .missing _ _ => pure []
      i.closing.lower
      let bounds ← lowerBounds more
      return bound ++ bounds

/-- Whether a number of elements with a number of scalars each is above the limit. -/
def exceedsLimit (elements width : Nat) : Bool := elementLimit < elements * width

/-- The elements of an array whose elements consist of `width` scalars each. -/
def flatten (name : String) (bounds : List Nat) (width : Nat) : Option (List String) :=
  match elements? name bounds with
  | some names => if exceedsLimit names.length width then none else some names
  | none => none

/-! ## Variables -/

def ScopeStack.declareAll (st : ScopeStack) (members : List Member) : ScopeStack :=
  members.foldl (fun st m => (st.declareStorage m.path m.kind m.ty).2) st

def declareMembers (members : List Member) : Lowering Unit :=
  modifyEnv fun env => { env with scopes := env.scopes.declareAll members }

/-- Keeps track of an array; it is a fault if there was one like it. -/
def registerArray (key : ArrayKey) : Lowering Unit := do
  if (← env).arrays.contains key then refuse (.arrayAlreadyDeclared key.name)
  modifyEnv fun env => { env with arrays := env.arrays.insert key }

/-- The elements of a variable: those of an array, or the variable itself. -/
def variableElements (name : String) (ty : DeclaredTy) (bounds : List Nat) :
    Lowering (Option (List String)) := do
  if bounds.isEmpty then return some [name]
  registerArray ⟨name, ty.elementTy, bounds.length⟩
  match flatten name bounds 1 with
  | some names => return some names
  | none =>
      refuse (.arrayTooLarge name)
      return none

/-- Declares all scalars of a variable. -/
def declareVariable (name : String) (ty : DeclaredTy) (bounds : List Nat) : Lowering Unit := do
  match ← variableElements name ty bounds with
  | none => pure ()
  | some names =>
      match ty with
      | .scalar ty => declareMembers (names.map fun name => ⟨name, ty, .var⟩)
      | .struct structName =>
          match (← env).structs.get? structName with
          | none => refuse (.structNotDefined structName)
          | some d =>
              if exceedsLimit names.length d.members.length then refuse (.arrayTooLarge name)
              else declareMembers (names.flatMap d.instanceMembers)

def Declarator.lower (ty : DeclaredTy) (d : Declarator) : Lowering Unit := do
  d.name.lower
  let bounds ← lowerBounds d.bounds
  match d.name.value? with
  | some name => declareVariable name ty bounds
  | none => pure ()

/-! ## Constants -/

def ConstEntry.lower (entry : ConstEntry) : Lowering Unit := do
  let ty ← entry.ty.lower
  entry.name.lower
  match entry.name.value?, entry.value with
  | some name, some (becomes, value) =>
      let s ← withScopes fun st => st.declareStorage name .const ty
      becomes.lower
      let valueTy ← value.lower
      check (Typing.assignment ty valueTy)
      store ⟨s, false⟩
  | _, _ => pure ()

/-! ## Structs -/

/-- Adds the scalars of one member to a definition, all of them or none. -/
def addMembers (d : StructDef) (name : String) (ty : DeclaredTy) (bounds : List Nat) :
    Lowering StructDef := do
  match ty with
  | .scalar ty => add 1 fun paths => paths.map fun path => ⟨path, ty, .var⟩
  | .struct structName =>
      match (← env).structs.get? structName with
      | none =>
          refuse (.structNotDefined structName)
          return d
      | some inner => add inner.members.length fun paths => paths.flatMap inner.instanceMembers
where
  add (width : Nat) (expand : List String → List Member) : Lowering StructDef := do
    match if bounds.isEmpty then some [name] else flatten name bounds width with
    | none =>
        refuse (.arrayTooLarge name)
        return d
    | some paths =>
        if exceedsLimit (d.members.length + paths.length * width) 1 then
          refuse (.arrayTooLarge name)
          return d
        else return { d with members := d.members ++ expand paths }

def lowerStructItems (d : StructDef) : List StructItem → Lowering StructDef
  | [] => pure d
  | .skipped token :: more => do
      skip "Decl" token
      lowerStructItems d more
  | .member tySpec name bounds semicolon :: more => do
      let ty ← tySpec.lower
      name.lower
      let bounds ← lowerBounds bounds
      semicolon.lower
      let d ← match name.value? with
        | some name => addMembers d name ty bounds
        | none => pure d
      lowerStructItems d more

def lowerStructDef (keyword : Token) (name opening : Terminal) (items : List StructItem)
    (closing semicolon : Terminal) : Lowering Unit := do
  consume keyword
  name.lower
  if (← env).structs.isDefined name.valueD then refuse (.structAlreadyDefined name.valueD)
  opening.lower
  let d ← lowerStructItems (.new name.valueD) items
  closing.lower
  semicolon.lower
  modifyEnv fun env => { env with structs := env.structs.define d }

def Declaration.lower : Declaration → Lowering Unit
  | const keyword entries semicolon => do
      consume keyword
      discard (entries.lower ConstEntry.lower)
      semicolon.lower
  | vars tySpec declarators semicolon => do
      let ty ← tySpec.lower
      discard (declarators.lower (Declarator.lower ty))
      semicolon.lower
  | structDef keyword name opening items closing semicolon =>
      lowerStructDef keyword name opening items closing semicolon

end SlotLang
