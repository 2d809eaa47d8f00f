import SlotLang.Grammar.Stmt
import SlotLang.Lowering.Declaration

/-!
# Lowering statements

A statement leaves the stack as it found it.  Branches and loops jump to labels drawn for them, and
each of these labels is landed inside the code of the statement that drew it.
-/

namespace SlotLang

open Lowering

/-- Pops a value into a target, if there is a target at all. -/
def storeChecked (target : Option Resolved) (ty : Ty) : Lowering Unit :=
  match target with
  | none => pure ()
  | some target => do
      check (Typing.assignment target.symbol.ty ty)
      store target

def checkAssignable (target : Option Resolved) : Lowering Unit :=
  match target with
  | none => pure ()
  | some target => check (Typing.assignable target)

/-! ## Statements without statements inside -/

def lowerAssign (d : Designator) (becomes : Token) (value : Expr) (semicolon : Terminal) :
    Lowering Unit := do
  let target ← d.lowerTarget
  consume becomes
  checkAssignable target
  let ty ← value.lower
  semicolon.lower
  storeChecked target ty

/-- A conditional assignment: the guard decides which of two values is stored. -/
def lowerChoose (d : Designator) (becomes : Token) (guard : Expr) (question : Token)
    (first : Expr) (colon : Terminal) (second : Expr) (semicolon : Terminal) :
    Lowering Unit := do
  let target ← d.lowerTarget
  consume becomes
  checkAssignable target
  let guardTy ← guard.lower
  consume question
  check (Typing.guardValue guardTy)
  let elseLabel ← freshLabel
  emit (.jumpUnless elseLabel)
  let endLabel ← freshLabel
  let firstTy ← first.lower
  colon.lower
  storeChecked target firstTy
  emit (.jump endLabel)
  land elseLabel
  let secondTy ← second.lower
  semicolon.lower
  storeChecked target secondTy
  land endLabel

/-- The label that a call of a procedure names. -/
def callLabel (scopes : ScopeStack) (target : Resolved) : String :=
  if target.external then target.symbol.name
  else scopes.labelForCall (scopes.callLevel target.symbol) target.symbol.name

/-- Checks a call and emits it. -/
def emitCall (target : Resolved) (arguments : List Ty) : Lowering Unit := do
  match Typing.callable target with
  | .error fault => refuse fault
  | .ok _ =>
      let here ← env
      let label := callLabel here.scopes target
      match here.signatures.get? label with
      | some signature => check (Typing.arguments signature arguments)
      | none => pure ()
      emit (.call (here.scopes.callLevel target.symbol) (.named label))

def lowerCall (callee : Designator) (opening : Token) (arguments : Option (Separated Expr))
    (closing semicolon : Terminal) : Lowering Unit := do
  let target ← callee.lowerTarget
  consume opening
  let types ← Separated.lower? arguments Expr.lower
  closing.lower
  semicolon.lower
  match target with
  | none => pure ()
  | some target => emitCall target types

def lowerRead (keyword : Token) (d : Designator) (semicolon : Terminal) : Lowering Unit := do
  consume keyword
  let target ← d.lowerTarget
  semicolon.lower
  match target with
  | none => pure ()
  | some target =>
      check (Typing.readable target)
      emit .read
      store target

def lowerWriteOperand (operand : Expr) : Lowering Unit := do
  let ty ← operand.lower
  check (Typing.writable ty)
  emit .write

def lowerWrite (keyword : Token) (operands : Separated Expr) (semicolon : Terminal) :
    Lowering Unit := do
  consume keyword
  discard (operands.lower lowerWriteOperand)
  semicolon.lower

def Assignment.lower : Assignment → Lowering Unit
  | complete d becomes value => do
      let target ← d.lowerTarget
      consume becomes
      checkAssignable target
      let ty ← value.lower
      storeChecked target ty
  | broken d next => do
      discard d.lowerTarget
      refuseBefore next (.expected TokenKind.assignment.describe)

def Condition.lower (c : Condition) : Lowering Unit := do
  c.opening.lower
  let ty ← c.test.lower
  c.closing.lower
  check (Typing.condition ty)

/-! ## Branches and loops -/

/-- A branch jumps over its body unless the condition holds, and the body jumps over the
alternative. -/
def lowerBranch (keyword : Token) (condition : Condition) (body alternative : Lowering Unit) :
    Lowering Unit := do
  consume keyword
  condition.lower
  let elseLabel ← freshLabel
  emit (.jumpUnless elseLabel)
  body
  let endLabel ← freshLabel
  emit (.jump endLabel)
  land elseLabel
  alternative
  land endLabel

def lowerWhile (keyword : Token) (condition : Condition) (body : Lowering Unit) :
    Lowering Unit := do
  consume keyword
  let startLabel ← freshLabel
  let endLabel ← freshLabel
  land startLabel
  condition.lower
  emit (.jumpUnless endLabel)
  body
  emit (.jump startLabel)
  land endLabel

/-- A counting loop computes its test, then takes its step, then leaves if the test failed.  The
first round starts at the jump that ends every round. -/
def lowerFor (keyword : Token) (opening : Terminal) (init : Assignment) (afterInit : Terminal)
    (test : Expr) (afterTest : Terminal) (step : Assignment) (closing : Terminal)
    (body : Lowering Unit) : Lowering Unit := do
  consume keyword
  opening.lower
  init.lower
  afterInit.lower
  let backLabel ← freshLabel
  emit (.jump backLabel)
  let startLabel ← freshLabel
  let endLabel ← freshLabel
  land startLabel
  let ty ← test.lower
  afterTest.lower
  step.lower
  closing.lower
  check (Typing.condition ty)
  emit (.jumpUnless endLabel)
  body
  land backLabel
  emit (.jump startLabel)
  land endLabel

/-- One case of a switch: the subject is computed again and compared with the label. -/
def lowerCase (subjectTy : Ty) (subject : List Instruction) (endLabel : Label) (keyword : Token)
    (label : Expr) (colon : Terminal) (body : Lowering Unit) : Lowering Unit := do
  consume keyword
  emitAll subject
  let labelTy ← label.lower
  colon.lower
  check (Typing.caseLabel subjectTy labelTy)
  let nextLabel ← freshLabel
  emit (.compare .equ)
  emit (.jumpUnless nextLabel)
  body
  emit (.jump endLabel)
  land nextLabel

def lowerFallback : Option (Token × Terminal) → Lowering Unit
  | none => pure ()
  | some (keyword, colon) => do
      consume keyword
      colon.lower

/-- A switch tries its cases in order; the first one that fits runs and leaves the switch. -/
def lowerSwitch (keyword : Token) (opening : Terminal) (subject : Expr) (closing brace : Terminal)
    (cases : Ty → List Instruction → Label → Lowering Unit) (fallback : Option (Token × Terminal))
    (fallbackBody : Lowering Unit) (closingBrace : Terminal) : Lowering Unit := do
  consume keyword
  opening.lower
  let (subjectTy, subjectCode) ← captured subject.lower
  closing.lower
  brace.lower
  let endLabel ← freshLabel
  cases subjectTy subjectCode endLabel
  lowerFallback fallback
  fallbackBody
  closingBrace.lower
  land endLabel

mutual

def Stmt.lower : Stmt → Lowering Unit
  | .missing next => refuseBefore next (.invalid "Stat")
  | .broken target => discard target.lower
  | .dangling target next => do
      discard target.lowerTarget
      refuseBefore next (.invalid "Stat")
  | .assign target becomes value semicolon => lowerAssign target becomes value semicolon
  | .choose target becomes guard question first colon second semicolon =>
      lowerChoose target becomes guard question first colon second semicolon
  | .call callee opening arguments closing semicolon =>
      lowerCall callee opening arguments closing semicolon
  | .branch keyword condition body => lowerBranch keyword condition body.lower (pure ())
  | .branchElse keyword condition body otherwise alternative =>
      lowerBranch keyword condition body.lower (do
        consume otherwise
        alternative.lower)
  | .whileLoop keyword condition body => lowerWhile keyword condition body.lower
  | .forLoop keyword opening init afterInit test afterTest step closing body =>
      lowerFor keyword opening init afterInit test afterTest step closing body.lower
  | .switch keyword opening subject closing brace cases fallback fallbackBody closingBrace =>
      lowerSwitch keyword opening subject closing brace
        (fun subjectTy subjectCode endLabel => lowerCases subjectTy subjectCode endLabel cases)
        fallback (lowerStmts fallbackBody) closingBrace
  | .read keyword target semicolon => lowerRead keyword target semicolon
  | .write keyword operands semicolon => lowerWrite keyword operands semicolon
  | .block opening items closing => do
      consume opening
      lowerBlockItems items
      closing.lower

def lowerStmts : List Stmt → Lowering Unit
  | [] => pure ()
  | s :: more => do
      s.lower
      lowerStmts more

def lowerCases (subjectTy : Ty) (subject : List Instruction) (endLabel : Label) :
    List Case → Lowering Unit
  | [] => pure ()
  | c :: more => do
      Case.lower subjectTy subject endLabel c
      lowerCases subjectTy subject endLabel more

def Case.lower (subjectTy : Ty) (subject : List Instruction) (endLabel : Label) :
    Case → Lowering Unit
  | .mk keyword label colon body =>
      lowerCase subjectTy subject endLabel keyword label colon (lowerStmts body)

def lowerBlockItems : List BlockItem → Lowering Unit
  | [] => pure ()
  | item :: more => do
      item.lower
      lowerBlockItems more

def BlockItem.lower : BlockItem → Lowering Unit
  | .declaration d => d.lower
  | .statement s => s.lower
  | .skipped token => skip "Stat" token

end

end SlotLang
