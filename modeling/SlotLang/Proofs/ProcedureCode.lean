import SlotLang.Proofs.JumpTargets

/-!
# The code of a procedure

Only procedures have an `Enter`, a `Leave` or a `Ret` in their code, each procedure one of each: the
first at its start and the other two at its end.  What lies between them is the code of its head and
of its body.  All this holds whatever faults were found.
-/

namespace SlotLang

open Lowering

/-! ## Statements stay in their procedure -/

/-- The operations at the two ends of a procedure. -/
def Op.isBound : Op → Bool
  | .enter _ | .leave | .ret => true
  | _ => false

def FlatCode (code : List Instruction) : Prop := ∀ i ∈ code, i.op.isBound = false

/-- The phrase has no procedure in it. -/
def Flat {α : Type} (x : Lowering α) : Prop := ∀ env, FlatCode (x env).code

theorem StraightCode.flat {code : List Instruction} (h : StraightCode code) : FlatCode code := by
  intro i hi
  obtain ⟨op, rfl, hop⟩ := h i hi
  change op.isBound = false
  cases op <;> simp_all [Op.isStraight, Op.isBound]

theorem Straight.flat {α : Type} {x : Lowering α} (h : Straight x) : Flat x :=
  fun env => (h env).2.flat

namespace Flat

variable {α β : Type}

theorem bind {x : Lowering α} {f : α → Lowering β} (hx : Flat x) (hf : ∀ a, Flat (f a)) :
    Flat (x >>= f) := by
  intro env i hi
  rcases List.mem_append.mp hi with hi | hi
  · exact hx env i hi
  · exact hf _ _ i hi

theorem straight_bind {x : Lowering α} {f : α → Lowering β} (hx : Straight x)
    (hf : ∀ a, Flat (f a)) : Flat (x >>= f) :=
  hx.flat.bind hf

theorem freshLabel_bind {f : Label → Lowering β} (hf : ∀ label, Flat (f label)) :
    Flat (freshLabel >>= f) := fun _ => hf _ _

theorem captured_bind {x : Lowering α} {f : α × List Instruction → Lowering β} (hx : Straight x)
    (hf : ∀ a code, StraightCode code → Flat (f (a, code))) : Flat (captured x >>= f) :=
  fun env => hf _ _ (hx env).2 _

theorem emit {op : Op} (h : op.isBound = false) : Flat (Lowering.emit op) := by
  intro env i hi
  rw [List.mem_singleton.mp hi]
  exact h

theorem land (label : Label) : Flat (Lowering.land label) := by
  intro env i hi
  rw [List.mem_singleton.mp hi]
  rfl

end Flat

theorem lowerChoose_flat (d : Designator) (becomes : Token) (guard : Expr) (question : Token)
    (first : Expr) (colon : Terminal) (second : Expr) (semicolon : Terminal) :
    Flat (lowerChoose d becomes guard question first colon second semicolon) :=
  .straight_bind d.lowerTarget_straight fun target => .straight_bind (.consume _) fun _ =>
    .straight_bind (checkAssignable_straight target) fun _ =>
    .straight_bind guard.lower_straight fun _ => .straight_bind (.consume _) fun _ =>
    .straight_bind (.check _) fun _ => .freshLabel_bind fun other =>
    .bind (.emit rfl) fun _ => .freshLabel_bind fun last =>
    .straight_bind first.lower_straight fun firstTy => .straight_bind (.terminal _) fun _ =>
    .straight_bind (storeChecked_straight target firstTy) fun _ => .bind (.emit rfl) fun _ =>
    .bind (.land other) fun _ => .straight_bind second.lower_straight fun secondTy =>
    .straight_bind (.terminal _) fun _ =>
    .straight_bind (storeChecked_straight target secondTy) fun _ => .land last

theorem lowerBranch_flat {body alternative : Lowering Unit} (hbody : Flat body)
    (halternative : Flat alternative) (keyword : Token) (condition : Condition) :
    Flat (lowerBranch keyword condition body alternative) :=
  .straight_bind (.consume _) fun _ => .straight_bind condition.lower_straight fun _ =>
    .freshLabel_bind fun other => .bind (.emit rfl) fun _ => .bind hbody fun _ =>
    .freshLabel_bind fun last => .bind (.emit rfl) fun _ => .bind (.land other) fun _ =>
    .bind halternative fun _ => .land last

theorem lowerWhile_flat {body : Lowering Unit} (hbody : Flat body) (keyword : Token)
    (condition : Condition) : Flat (lowerWhile keyword condition body) :=
  .straight_bind (.consume _) fun _ => .freshLabel_bind fun first => .freshLabel_bind fun last =>
    .bind (.land first) fun _ => .straight_bind condition.lower_straight fun _ =>
    .bind (.emit rfl) fun _ => .bind hbody fun _ => .bind (.emit rfl) fun _ => .land last

theorem lowerFor_flat {body : Lowering Unit} (hbody : Flat body) (keyword : Token)
    (opening : Terminal) (init : Assignment) (afterInit : Terminal) (test : Expr)
    (afterTest : Terminal) (step : Assignment) (closing : Terminal) :
    Flat (lowerFor keyword opening init afterInit test afterTest step closing body) :=
  .straight_bind (.consume _) fun _ => .straight_bind (.terminal _) fun _ =>
    .straight_bind init.lower_straight fun _ => .straight_bind (.terminal _) fun _ =>
    .freshLabel_bind fun back => .bind (.emit rfl) fun _ => .freshLabel_bind fun first =>
    .freshLabel_bind fun last => .bind (.land first) fun _ =>
    .straight_bind test.lower_straight fun _ => .straight_bind (.terminal _) fun _ =>
    .straight_bind step.lower_straight fun _ => .straight_bind (.terminal _) fun _ =>
    .straight_bind (.check _) fun _ => .bind (.emit rfl) fun _ => .bind hbody fun _ =>
    .bind (.land back) fun _ => .bind (.emit rfl) fun _ => .land last

theorem lowerCase_flat {body : Lowering Unit} (hbody : Flat body) {subject : List Instruction}
    (hsubject : StraightCode subject) (ty : Ty) (exit : Label) (keyword : Token) (label : Expr)
    (colon : Terminal) : Flat (lowerCase ty subject exit keyword label colon body) :=
  .straight_bind (.consume _) fun _ => .straight_bind (.emitAll hsubject) fun _ =>
    .straight_bind label.lower_straight fun _ => .straight_bind (.terminal _) fun _ =>
    .straight_bind (.check _) fun _ => .freshLabel_bind fun next => .bind (.emit rfl) fun _ =>
    .bind (.emit rfl) fun _ => .bind hbody fun _ => .bind (.emit rfl) fun _ => .land next

theorem lowerSwitch_flat {cases : Ty → List Instruction → Label → Lowering Unit}
    {fallbackBody : Lowering Unit}
    (hcases : ∀ ty subject exit, StraightCode subject → Flat (cases ty subject exit))
    (hfallback : Flat fallbackBody) (keyword : Token) (opening : Terminal) (subject : Expr)
    (closing brace : Terminal) (fallback : Option (Token × Terminal)) (closingBrace : Terminal) :
    Flat (lowerSwitch keyword opening subject closing brace cases fallback fallbackBody
      closingBrace) :=
  .straight_bind (.consume _) fun _ => .straight_bind (.terminal _) fun _ =>
    .captured_bind subject.lower_straight fun ty code hcode =>
    .straight_bind (.terminal _) fun _ => .straight_bind (.terminal _) fun _ =>
    .freshLabel_bind fun last => .bind (hcases ty code last hcode) fun _ =>
    .straight_bind (lowerFallback_straight fallback) fun _ => .bind hfallback fun _ =>
    .straight_bind (.terminal _) fun _ => .land last

mutual

theorem Stmt.lower_flat : ∀ s : Stmt, Flat s.lower
  | .missing next => (Straight.refuseBefore next _).flat
  | .broken target => (Straight.discard target.lower_straight).flat
  | .dangling target next =>
      .straight_bind (.discard target.lowerTarget_straight) fun _ =>
        (Straight.refuseBefore next _).flat
  | .assign target becomes value semicolon =>
      (lowerAssign_straight target becomes value semicolon).flat
  | .choose target becomes guard question first colon second semicolon =>
      lowerChoose_flat target becomes guard question first colon second semicolon
  | .call callee opening arguments closing semicolon =>
      (lowerCall_straight callee opening arguments closing semicolon).flat
  | .branch keyword condition body =>
      lowerBranch_flat body.lower_flat (Straight.pure ()).flat keyword condition
  | .branchElse keyword condition body otherwise alternative =>
      lowerBranch_flat body.lower_flat
        (.straight_bind (.consume otherwise) fun _ => alternative.lower_flat) keyword condition
  | .whileLoop keyword condition body => lowerWhile_flat body.lower_flat keyword condition
  | .forLoop keyword opening init afterInit test afterTest step closing body =>
      lowerFor_flat body.lower_flat keyword opening init afterInit test afterTest step closing
  | .switch keyword opening subject closing brace cases fallback fallbackBody closingBrace =>
      lowerSwitch_flat (lowerCases_flat cases) (lowerStmts_flat fallbackBody) keyword opening
        subject closing brace fallback closingBrace
  | .read keyword target semicolon => (lowerRead_straight keyword target semicolon).flat
  | .write keyword operands semicolon => (lowerWrite_straight keyword operands semicolon).flat
  | .block opening items closing =>
      .straight_bind (.consume opening) fun _ => .bind (lowerBlockItems_flat items) fun _ =>
        (Straight.terminal closing).flat

theorem lowerStmts_flat : ∀ stmts : List Stmt, Flat (lowerStmts stmts)
  | [] => (Straight.pure ()).flat
  | s :: more => .bind s.lower_flat fun _ => lowerStmts_flat more

theorem lowerCases_flat : ∀ (cases : List Case) (ty : Ty) (subject : List Instruction)
    (exit : Label), StraightCode subject → Flat (lowerCases ty subject exit cases)
  | [], _, _, _, _ => (Straight.pure ()).flat
  | .mk keyword label colon body :: more, ty, subject, exit, hsubject =>
      .bind (lowerCase_flat (lowerStmts_flat body) hsubject ty exit keyword label colon)
        fun _ => lowerCases_flat more ty subject exit hsubject

theorem lowerBlockItems_flat : ∀ items : List BlockItem, Flat (lowerBlockItems items)
  | [] => (Straight.pure ()).flat
  | item :: more => .bind item.lower_flat fun _ => lowerBlockItems_flat more

theorem BlockItem.lower_flat : ∀ item : BlockItem, Flat item.lower
  | .declaration d => d.lower_straight.flat
  | .statement s => s.lower_flat
  | .skipped token => (Straight.skip _ token).flat

end

/-! ## The code of one procedure -/

theorem Terminal.lower_code (t : Terminal) (env : Env) : (t.lower env).code = [] := by
  cases t <;> rfl

theorem openProcedure_value (keyword : Token) (name : Terminal) (env : Env) :
    (openProcedure keyword name env).value = env.scopes.labelFor name.valueD := by
  have hscopes : (name.lower { env with last := keyword }).env.scopes = env.scopes := by
    cases name <;> rfl
  have hopen : ∀ st : ScopeStack, (st.declareProcedure name.valueD).2.openProcedures =
      st.openProcedures := by
    intro st
    simp only [ScopeStack.declareProcedure, ScopeStack.pushCurrent, ScopeStack.ensureScope]
    split <;> split <;> rfl
  have hvalue : (openProcedure keyword name env).value =
      ((name.lower { env with last := keyword }).env.scopes.declareProcedure name.valueD).2.labelFor
        name.valueD := rfl
  rw [hvalue, hscopes, ScopeStack.labelFor, hopen]
  rfl

theorem closeProcedure_value (env : Env) :
    (closeProcedure env).value = (env.scopes.current?.getD .empty).slots := by
  change ScopeStack.slotCount env.scopes.current? = _
  cases env.scopes.current? <;> rfl

theorem closeProcedure_code (env : Env) : (closeProcedure env).code = [] := rfl

namespace Procedure

def name : Procedure → String
  | .mk _ name _ _ _ _ _ _ => name.valueD

def body : Procedure → List BodyItem
  | .mk _ _ _ _ _ _ body _ => body

/-- Everything in front of the body: the name, the parameters and the opening brace. -/
def lowerHead : Procedure → Lowering Unit
  | .mk keyword name opening params closing brace _ _ => do
      let label ← openProcedure keyword name
      opening.lower
      let types ← Separated.lower? params Param.lower
      closing.lower
      registerSignature label ⟨name.valueD, types, .undefined⟩
      emitAll (storeArguments types.length)
      brace.lower

/-- The scope of a procedure where it ends. -/
def finalScope : Procedure → Env → Scope
  | .mk keyword name opening params closing brace body closingBrace, env =>
      let p := Procedure.mk keyword name opening params closing brace body closingBrace
      let inside := (lowerBodyItems body (p.lowerHead env).env).env
      (closingBrace.lower inside).env.scopes.current?.getD .empty

/-- The instruction at which a procedure is entered. -/
def enter (p : Procedure) (env : Env) : Instruction :=
  .labelled (.named (env.scopes.labelFor p.name)) (.enter (p.finalScope env).slots)

theorem lowerHead_straight (p : Procedure) : Straight p.lowerHead := by
  cases p with
  | mk keyword name opening params closing brace body closingBrace =>
    have hopen : Straight (openProcedure keyword name) :=
      .bind (.consume _) fun _ => .bind (.terminal _) fun _ =>
        .bind (.discard (.withScopes _)) fun _ => .withScopes _
    exact .bind hopen fun _ => .bind (.terminal _) fun _ =>
      .bind (Separated.lower?_straight Param.lower_straight params) fun types =>
      .bind (.terminal _) fun _ => .bind (registerSignature_straight _ _) fun _ =>
      .bind (.emitAll (storeArguments_straight types.length)) fun _ => .terminal _

theorem lower_code (p : Procedure) (env : Env) :
    (p.lower env).code = p.enter env :: ((p.lowerHead env).code ++
      ((lowerBodyItems p.body (p.lowerHead env).env).code ++ [.plain .leave, .plain .ret])) := by
  cases p with
  | mk keyword name opening params closing brace body closingBrace =>
    have hopened : (openProcedure keyword name env).code = [] := by
      cases name <;> rfl
    simp [Procedure.lower, lowerProcedure, lowerProcedureBody, lowerHead, captured, emitAll, emit,
      hopened, Terminal.lower_code, closeProcedure_code, closeProcedure_value, openProcedure_value,
      enter, finalScope, Procedure.name, Procedure.body]

end Procedure

end SlotLang
