import SlotLang.Grammar.Program
import SlotLang.Lowering.Stmt

/-!
# Lowering procedures and programs

The code of a procedure starts with an instruction that carries its label and makes room for its
frame; the size of the frame is the number of slots that the body has declared when it ends.  The
arguments of a call lie on the stack, the last one on top, and are stored into the first slots.  A
procedure inside another one stands in the middle of the code of the outer one, which jumps over it.
-/

namespace SlotLang

open Lowering

def Param.lower (p : Param) : Lowering Ty := do
  let ty ← p.ty.lower
  p.name.lower
  match p.name.value? with
  | some name => discard (withScopes fun st => st.declareLocal name .var ty)
  | none => pure ()
  return ty

/-- The instructions that store `count` arguments. -/
def storeArguments (count : Nat) : List Instruction :=
  (List.range count).reverse.map fun offset => .plain (.store 0 offset)

def registerSignature (label : String) (signature : Signature) : Lowering Unit :=
  modifyEnv fun env => { env with signatures := env.signatures.register label signature }

/-- The head of a procedure: it declares the procedure, opens its scope and gives its label. -/
def openProcedure (keyword : Token) (name : Terminal) : Lowering String := do
  consume keyword
  name.lower
  discard (withScopes fun st => st.declareProcedure name.valueD)
  withScopes fun st => st.enterProcedure name.valueD

/-- Everything between the head of a procedure and its end. -/
def lowerProcedureBody (label : String) (name opening : Terminal)
    (params : Option (Separated Param)) (closing brace : Terminal) (body : Lowering Unit)
    (closingBrace : Terminal) : Lowering Unit := do
  opening.lower
  let types ← Separated.lower? params Param.lower
  closing.lower
  registerSignature label ⟨name.valueD, types, .undefined⟩
  emitAll (storeArguments types.length)
  brace.lower
  body
  closingBrace.lower

/-- Closes a procedure and gives the size of its frame. -/
def closeProcedure : Lowering Nat := do
  let scope ← withScopes ScopeStack.exitProcedure
  return ScopeStack.slotCount scope

def lowerProcedure (keyword : Token) (name opening : Terminal) (params : Option (Separated Param))
    (closing brace : Terminal) (body : Lowering Unit) (closingBrace : Terminal) :
    Lowering Unit := do
  let label ← openProcedure keyword name
  let (_, code) ← captured (lowerProcedureBody label name opening params closing brace body
    closingBrace)
  let frame ← closeProcedure
  emitAll [.labelled (.named label) (.enter frame)]
  emitAll code
  emit .leave
  emit .ret

/-- A procedure that execution has to jump over. -/
def lowerNested (procedure : Lowering Unit) : Lowering Unit := do
  let skipLabel ← freshLabel
  emit (.jump skipLabel)
  procedure
  land skipLabel

mutual

def Procedure.lower : Procedure → Lowering Unit
  | .mk keyword name opening params closing brace body closingBrace =>
      lowerProcedure keyword name opening params closing brace (lowerBodyItems body) closingBrace

def lowerBodyItems : List BodyItem → Lowering Unit
  | [] => pure ()
  | item :: more => do
      item.lower
      lowerBodyItems more

def BodyItem.lower : BodyItem → Lowering Unit
  | .declaration d => d.lower
  | .statement s => s.lower
  | .nested p => lowerNested p.lower
  | .skipped token => skip "Stat" token

end

/-! ## External names -/

def declareExternal (name : Terminal) (kind : SymbolKind) (ty : Ty) : Lowering Unit :=
  match name.value? with
  | some name => discard (withScopes fun st => st.declareExternal name kind ty)
  | none => pure ()

def lowerExternalParams (name : Terminal) : Option ExternalParams → Lowering Unit
  | none => pure ()
  | some params => do
      consume params.opening
      let types ← Separated.lower? params.types ScalarSpec.lower
      params.closing.lower
      registerSignature name.valueD ⟨name.valueD, types, .undefined⟩

def External.lower : External → Lowering Unit
  | vars keyword tySpec names semicolon => do
      consume keyword
      let ty ← tySpec.lower
      discard (names.lower fun name => do
        name.lower
        declareExternal name .var ty)
      semicolon.lower
  | const keyword constant tySpec name semicolon => do
      consume keyword
      consume constant
      let ty ← tySpec.lower
      name.lower
      declareExternal name .const ty
      semicolon.lower
  | procedure keyword mark name params semicolon => do
      consume keyword
      consume mark
      name.lower
      declareExternal name .procedure .undefined
      lowerExternalParams name params
      semicolon.lower
  | missing keyword next => do
      consume keyword
      refuseBefore next (.invalid "ExternDecl")

/-! ## Programs -/

def ProgramItem.lower : ProgramItem → Lowering Unit
  | declaration d => d.lower
  | procedure p => p.lower
  | external e => e.lower
  | skipped token => skip "Decl" token

def lowerProgramItems : List ProgramItem → Lowering Unit
  | [] => pure ()
  | item :: more => do
      item.lower
      lowerProgramItems more

/-- Whether nothing has been declared in the scope of the program. -/
def ScopeStack.declaresNothing (st : ScopeStack) : Bool :=
  match st.global? with
  | some scope => scope.isEmpty
  | none => true

def Program.lower (p : Program) : Lowering Unit := do
  p.keyword.lower
  p.name.lower
  p.opening.lower
  modifyEnv fun env => { env with scopes := env.scopes.openScope }
  lowerProgramItems p.items
  p.closing.lower
  if (← env).scopes.declaresNothing then warn ("Warning: Program " ++ p.name.valueD ++ " is empty")
  p.ending.lower

end SlotLang
