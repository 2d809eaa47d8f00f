import SlotLang.Proofs.LoweringCode

/-!
# The code of faultless statements

Every statement that is lowered without a fault gives the code of the action that it elaborates to.
The lemmas go through the forms of statements one by one; those with statements inside take what is
known about these for a hypothesis, and the induction over the tree comes last.
-/

namespace SlotLang

open Lowering Aggregate

/-! ## Rules that only require something -/

theorem Typing.require_eq_ok {condition : Bool} {fault : Fault} {u : Unit} :
    Typing.require condition fault = .ok u ↔ condition = true := by
  cases condition <;> simp [Typing.require]

section Rules

variable {env : Env} {post : Unit → List Instruction → Env → Prop}

theorem ensures_checkAssignable (target : Resolved) :
    (checkAssignable (some target)).Ensures env post ↔
      (target.symbol.kind = .var → post () [] env) := by
  simp [checkAssignable, Typing.assignable, Typing.require_eq_ok]

theorem ensures_storeChecked (target : Resolved) (ty : Ty) :
    (storeChecked (some target) ty).Ensures env post ↔
      (target.symbol.ty = ty →
        post () [.plain (target.storeOp (env.scopes.dataLevel target.symbol))] env) := by
  simp [storeChecked, Typing.assignment, Typing.require_eq_ok]

theorem ensures_checkCondition (ty : Ty) :
    (check (Typing.condition ty)).Ensures env post ↔ (ty = .bool → post () [] env) := by
  simp [Typing.condition, Typing.require_eq_ok]

theorem ensures_checkGuard (ty : Ty) :
    (check (Typing.guardValue ty)).Ensures env post ↔ (ty = .bool → post () [] env) := by
  simp [Typing.guardValue, Typing.require_eq_ok]

theorem ensures_checkWritable (ty : Ty) :
    (check (Typing.writable ty)).Ensures env post ↔ (ty = .int → post () [] env) := by
  simp [Typing.writable, Typing.require_eq_ok]

theorem ensures_checkCaseLabel (subject label : Ty) :
    (check (Typing.caseLabel subject label)).Ensures env post ↔
      (subject = label → post () [] env) := by
  simp [Typing.caseLabel, Typing.require_eq_ok]

theorem ensures_checkReadable (target : Resolved) :
    (check (Typing.readable target)).Ensures env post ↔
      (target.symbol.kind = .var → target.symbol.ty = .int → post () [] env) := by
  simp only [ensures_check, Typing.readable]
  split
  next hkind => simp [hkind]
  next hkind =>
    have hvar : target.symbol.kind = .var := by simpa using hkind
    simp [Typing.require_eq_ok, hvar]

end Rules

/-! ## Statements without statements inside -/

theorem lowerAssign_realizes (d : Designator) (becomes : Token) (value : Expr)
    (semicolon : Terminal) :
    Realizes (lowerAssign d becomes value semicolon) fun st =>
      (.store .var (d.use st.scopes) (value.term st.scopes), st) := by
  intro env
  simp only [lowerAssign, ensures_bind]
  refine (d.lowerTarget_ensures env).mono ?_
  rintro found code env₁ ⟨⟨target, htarget, rfl⟩, rfl, token₁, rfl⟩
  simp only [ensures_consume, ensures_checkAssignable]
  intro hvar
  refine (value.lower_computes _).mono ?_
  rintro ty code env₂ ⟨hty, rfl, token₂, rfl⟩
  simp only [ensures_terminal, ensures_storeChecked]
  rintro token₃ _ rfl
  refine ⟨rfl, rfl, ?_, ⟨target.symbol.ty, rfl, ⟨target, htarget, hvar, rfl⟩, hty⟩, id⟩
  simp [Action.code, Emitted.store_instruction htarget]

theorem lowerChoose_realizes (d : Designator) (becomes : Token) (guard : Expr) (question : Token)
    (first : Expr) (colon : Terminal) (second : Expr) (semicolon : Terminal) :
    Realizes (lowerChoose d becomes guard question first colon second semicolon) fun st =>
      (.choose (d.use st.scopes) (guard.term st.scopes) (first.term st.scopes)
        (second.term st.scopes), st) := by
  intro env
  simp only [lowerChoose, ensures_bind]
  refine (d.lowerTarget_ensures env).mono ?_
  rintro found code env₁ ⟨⟨target, htarget, rfl⟩, rfl, token₁, rfl⟩
  simp only [ensures_consume, ensures_checkAssignable]
  intro hvar
  refine (guard.lower_computes _).mono ?_
  rintro ty code env₂ ⟨hguard, rfl, token₂, rfl⟩
  simp only [ensures_checkGuard, ensures_freshLabel, ensures_emit]
  rintro rfl
  refine (first.lower_computes _).mono ?_
  rintro ty code env₃ ⟨hfirst, rfl, token₃, rfl⟩
  simp only [ensures_terminal, ensures_storeChecked, ensures_land]
  rintro token₄ _ rfl
  refine (second.lower_computes _).mono ?_
  rintro ty code env₄ ⟨hsecond, rfl, token₅, rfl⟩
  rintro token₆ _ rfl
  refine ⟨rfl, rfl, ?_, ⟨target.symbol.ty, ⟨target, htarget, hvar, rfl⟩, hguard, hfirst, hsecond⟩,
    id⟩
  simp [Action.code, Emitted.store_instruction htarget]

theorem lowerCall_realizes (callee : Designator) (opening : Token)
    (arguments : Option (Separated Expr)) (closing semicolon : Terminal) :
    Realizes (lowerCall callee opening arguments closing semicolon) fun st =>
      (.call (callee.use st.scopes) ((Separated.toList? arguments).map (Expr.term st.scopes))
        st.signatures, st) := by
  intro env
  simp only [lowerCall, ensures_bind]
  refine (callee.lowerTarget_ensures env).mono ?_
  rintro found code env₁ ⟨⟨target, htarget, rfl⟩, rfl, token₁, rfl⟩
  simp only [ensures_consume]
  refine (lowerArguments_ensures arguments _).mono ?_
  rintro types code env₂ ⟨htypes, rfl, token₂, rfl⟩
  simp only [ensures_terminal]
  intro token₃ _ token₄ _
  simp only [emitCall]
  split
  next => simp
  next hcallable =>
    have hkind : target.symbol.kind = .procedure := by
      simpa [Typing.callable, Typing.require_eq_ok] using hcallable
    simp only [ensures_bind, ensures_env]
    have hcode : erase ((Action.call (callee.use env.scopes)
          ((Separated.toList? arguments).map (Expr.term env.scopes)) env.signatures).code
            env.nextLabel) =
        erase (((Separated.toList? arguments).map (Expr.term env.scopes)).flatMap Term.code) ++
          [.plain (.call (env.scopes.callLevel target.symbol)
            (.named (callLabel env.scopes target)))] := by
      simp [Action.code, Use.callOp, htarget]
    split
    next signature hsignature =>
      simp only [ensures_bind, ensures_check, ensures_emit]
      intro _ hrule
      refine ⟨rfl, rfl, hcode.symm, ⟨types, htypes, target, htarget, hkind, ?_⟩, id⟩
      intro other hother
      have hsame : signature = other := Option.some.inj (hsignature.symm.trans hother)
      rw [← hsame]
      exact Typing.arguments_ok hrule
    next hnone =>
      simp only [ensures_emit]
      refine ⟨rfl, rfl, hcode.symm, ⟨types, htypes, target, htarget, hkind, ?_⟩, id⟩
      intro other hother
      have hfound : env.signatures.get? (callLabel env.scopes target) = some other := hother
      exact absurd hfound (by simp [hnone])

theorem lowerRead_realizes (keyword : Token) (d : Designator) (semicolon : Terminal) :
    Realizes (lowerRead keyword d semicolon) fun st => (.read (d.use st.scopes), st) := by
  intro env
  simp only [lowerRead, ensures_bind, ensures_consume]
  refine (d.lowerTarget_ensures _).mono ?_
  rintro found code env₁ ⟨⟨target, htarget, rfl⟩, rfl, token₁, rfl⟩
  have htarget : (d.use env.scopes).target? = some target := htarget
  simp only [ensures_terminal, ensures_bind, ensures_checkReadable, ensures_emit, ensures_store]
  intro token₂ _ hvar hint
  refine ⟨rfl, rfl, ?_, ⟨target, htarget, hvar, hint⟩, id⟩
  simp [Action.code, Emitted.store_instruction htarget]

theorem lowerWriteOperand_realizes (operand : Expr) :
    Realizes (lowerWriteOperand operand) fun st => (.write (operand.term st.scopes), st) := by
  intro env
  simp only [lowerWriteOperand, ensures_bind]
  refine (operand.lower_computes env).mono ?_
  rintro ty code env₁ ⟨hty, rfl, token, rfl⟩
  simp only [ensures_checkWritable, ensures_emit]
  rintro rfl
  exact ⟨rfl, rfl, by simp [Action.code], hty, id⟩

theorem lowerWrite_realizes (keyword : Token) (operands : Separated Expr) (semicolon : Terminal) :
    Realizes (lowerWrite keyword operands semicolon) fun st =>
      elaborateAll (fun operand st => (.write (operand.term st.scopes), st)) operands.toList st := by
  intro env
  simp only [lowerWrite, ensures_bind, ensures_consume, ensures_discard]
  refine (realizes_separated lowerWriteOperand_realizes operands _).mono ?_
  intro _ code env₁ h
  simp only [ensures_terminal]
  intro token _
  exact h.past token

theorem Assignment.lower_realizes (a : Assignment) :
    Realizes a.lower fun st => (.store .var (a.use st.scopes) (a.term st.scopes), st) := by
  intro env
  cases a with
  | broken d next => simp [Assignment.lower]
  | complete d becomes value =>
    simp only [Assignment.lower, ensures_bind]
    refine (d.lowerTarget_ensures env).mono ?_
    rintro found code env₁ ⟨⟨target, htarget, rfl⟩, rfl, token₁, rfl⟩
    simp only [ensures_consume, ensures_checkAssignable]
    intro hvar
    refine (value.lower_computes _).mono ?_
    rintro ty code env₂ ⟨hty, rfl, token₂, rfl⟩
    simp only [ensures_storeChecked]
    rintro rfl
    refine ⟨rfl, rfl, ?_, ⟨target.symbol.ty, rfl, ⟨target, htarget, hvar, rfl⟩, hty⟩, id⟩
    simp [Action.code, Assignment.use, Assignment.term, Emitted.store_instruction htarget]

theorem Condition.lower_ensures (c : Condition) (env : Env) :
    c.lower.Ensures env fun _ code env' =>
      (c.test.term env.scopes).HasType .bool ∧ code = erase (c.test.term env.scopes).code ∧
        Passed env env' := by
  simp only [Condition.lower, ensures_bind, ensures_terminal]
  intro token₁ _
  refine (c.test.lower_computes _).mono ?_
  rintro ty code env₁ ⟨hty, rfl, token₂, rfl⟩
  simp only [ensures_checkCondition]
  rintro token₃ _ rfl
  exact ⟨hty, by simp, token₃, rfl⟩

/-! ## Branches and loops -/

theorem lowerBranch_realizes {body alternative : Lowering Unit}
    {B A : Static → Action × Static} (keyword : Token) (condition : Condition)
    (hbody : Realizes body B) (halternative : Realizes alternative A) :
    Realizes (lowerBranch keyword condition body alternative) fun st =>
      (.branch (condition.test.term st.scopes) (B st).1 (A (B st).2).1, (A (B st).2).2) := by
  intro env
  simp only [lowerBranch, ensures_bind, ensures_consume]
  refine (condition.lower_ensures _).mono ?_
  rintro _ code env₁ ⟨htest, rfl, token, rfl⟩
  simp only [ensures_freshLabel, ensures_emit, ensures_land]
  refine hbody.ensures env.static (env.nextLabel + 1) rfl rfl ?_
  intro code env₂ h₂
  have hlabel₂ : env₂.nextLabel + 1 = env.nextLabel + 2 + (B env.static).1.labels := by
    rw [h₂.labels]
    omega
  refine halternative.ensures _ _ h₂.static hlabel₂ ?_
  intro code' env₃ h₃
  refine ⟨h₃.static, ?_, ?_, ⟨htest, h₂.typed, h₃.typed⟩, fun h => h₃.scalar (h₂.scalar h)⟩
  · simp only [h₃.labels, Action.labels]
    omega
  · simp [Action.code, h₂.labels, h₂.code, h₃.code]

theorem lowerWhile_realizes {body : Lowering Unit} {B : Static → Action × Static}
    (keyword : Token) (condition : Condition) (hbody : Realizes body B) :
    Realizes (lowerWhile keyword condition body) fun st =>
      (.loop (condition.test.term st.scopes) (B st).1, (B st).2) := by
  intro env
  simp only [lowerWhile, ensures_bind, ensures_consume, ensures_freshLabel, ensures_land]
  refine (condition.lower_ensures _).mono ?_
  rintro _ code env₁ ⟨htest, rfl, token, rfl⟩
  simp only [ensures_emit]
  refine hbody.ensures env.static (env.nextLabel + 2) rfl rfl ?_
  intro code env₂ h₂
  refine ⟨h₂.static, ?_, ?_, ⟨htest, h₂.typed⟩, h₂.scalar⟩
  · simp only [h₂.labels, Action.labels]
    omega
  · simp [Action.code, h₂.code]

theorem lowerFor_realizes {body : Lowering Unit} {B : Static → Action × Static} (keyword : Token)
    (opening : Terminal) (init : Assignment) (afterInit : Terminal) (test : Expr)
    (afterTest : Terminal) (step : Assignment) (closing : Terminal) (hbody : Realizes body B) :
    Realizes (lowerFor keyword opening init afterInit test afterTest step closing body) fun st =>
      (.seq (.store .var (init.use st.scopes) (init.term st.scopes))
        (.rounds (test.term st.scopes) (step.use st.scopes) (step.term st.scopes) (B st).1),
        (B st).2) := by
  intro env
  simp only [lowerFor, ensures_bind, ensures_consume, ensures_terminal]
  intro token₁ _
  refine init.lower_realizes.ensures env.static env.nextLabel rfl rfl ?_
  intro code₁ env₁ h₁
  have hlabel₁ : env₁.nextLabel = env.nextLabel := h₁.labels
  have hscopes₁ : env₁.scopes = env.scopes := congrArg Static.scopes h₁.static
  simp only [ensures_freshLabel, ensures_emit, ensures_land]
  intro token₂ _
  refine (test.lower_computes _).mono ?_
  rintro ty code env₂ ⟨htest, rfl, token₃, rfl⟩
  intro token₄ _
  refine step.lower_realizes.ensures env.static (env.nextLabel + 3) h₁.static
    (congrArg (· + 3) hlabel₁) ?_
  intro code₂ env₃ h₃
  have hlabel₃ : env₃.nextLabel = env.nextLabel + 3 := h₃.labels
  simp only [ensures_checkCondition]
  rintro token₅ _ rfl
  refine hbody.ensures env.static (env.nextLabel + 3) h₃.static hlabel₃ ?_
  intro code₃ env₄ h₄
  simp only [hscopes₁] at htest ⊢
  obtain ⟨ty, -, htarget, hvalue⟩ := h₃.typed
  refine ⟨h₄.static, ?_, ?_, ⟨h₁.typed, ty, htest, htarget, hvalue, h₄.typed⟩, h₄.scalar⟩
  · simp only [h₄.labels, Action.labels]
    omega
  · simp [Action.code, Action.labels, hlabel₁, h₁.code, h₃.code, h₄.code]

/-! ## Switches -/

abbrev RealizedCases (st : Static) (subject : Term) (subjectTy : Ty) (exit n : Nat)
    (meaning : Cases × Static) : List Instruction → Env → Prop :=
  Realized st meaning.2 n meaning.1.labels (meaning.1.code subject exit n)
    (meaning.1.WellTyped subjectTy)

def RealizesCases (x : Ty → List Instruction → Label → Lowering Unit)
    (meaning : Static → Cases × Static) : Prop :=
  ∀ (subject : Term) (ty : Ty) (exit : Nat) (env : Env),
    (x ty (erase subject.code) (.fresh exit)).Ensures env fun _ code env' =>
      RealizedCases env.static subject ty exit env.nextLabel (meaning env.static) code env'

theorem lowerCase_ensures {body : Lowering Unit} {B : Static → Action × Static}
    (hbody : Realizes body B) (subject : Term) (ty : Ty) (exit : Nat) (keyword : Token)
    (label : Expr) (colon : Terminal) (env : Env) :
    (lowerCase ty (erase subject.code) (.fresh exit) keyword label colon body).Ensures env
      fun _ code env' =>
        env'.static = (B env.static).2 ∧
          env'.nextLabel = env.nextLabel + 1 + (B env.static).1.labels ∧
          code = erase (subject.code ++ (label.term env.scopes).code ++
            [.plain (.compare .equ), .jumpUnless env.nextLabel] ++
            (B env.static).1.code (env.nextLabel + 1) ++ [.jump exit, .landing env.nextLabel]) ∧
          (label.term env.scopes).HasType ty ∧ (B env.static).1.WellTyped ∧
          (env.static.Scalar → (B env.static).2.Scalar) := by
  simp only [lowerCase, ensures_bind, ensures_consume, ensures_emitAll]
  refine (label.lower_computes _).mono ?_
  rintro labelTy code env₁ ⟨hlabel, rfl, token₁, rfl⟩
  simp only [ensures_terminal, ensures_checkCaseLabel, ensures_freshLabel, ensures_emit,
    ensures_land]
  rintro token₂ _ rfl
  refine hbody.ensures env.static (env.nextLabel + 1) rfl rfl ?_
  intro code env₂ h₂
  refine ⟨h₂.static, h₂.labels, ?_, hlabel, h₂.typed, h₂.scalar⟩
  simp [h₂.code]

theorem lowerSwitch_realizes {cases : Ty → List Instruction → Label → Lowering Unit}
    {fallbackBody : Lowering Unit} {C : Static → Cases × Static} {F : Static → Action × Static}
    (keyword : Token) (opening : Terminal) (subject : Expr) (closing brace : Terminal)
    (fallback : Option (Token × Terminal)) (closingBrace : Terminal)
    (hcases : RealizesCases cases C) (hfallback : Realizes fallbackBody F) :
    Realizes (lowerSwitch keyword opening subject closing brace cases fallback fallbackBody
      closingBrace) fun st =>
        (.switch (subject.term st.scopes) (C st).1 (F (C st).2).1, (F (C st).2).2) := by
  intro env
  simp only [lowerSwitch, ensures_bind, ensures_consume, ensures_terminal, ensures_captured]
  intro token₁ _
  refine (subject.lower_computes _).mono ?_
  rintro ty code env₁ ⟨hsubject, rfl, token₂, rfl⟩
  simp only [ensures_freshLabel, ensures_land]
  intro token₃ _ token₄ _
  refine (hcases (subject.term env.scopes) ty env.nextLabel _).mono ?_
  intro _ code₁ env₂ h₂
  have hstatic₂ : env₂.static = (C env.static).2 := h₂.static
  have hlabels₂ : env₂.nextLabel = env.nextLabel + 1 + (C env.static).1.labels := h₂.labels
  have hpassed : (lowerFallback fallback).Ensures env₂ fun _ code env' =>
      code = [] ∧ Passed env₂ env' := by
    cases fallback with
    | none =>
      rw [lowerFallback, ensures_pure]
      exact ⟨rfl, Passed.refl env₂⟩
    | some pair =>
      simp only [lowerFallback, ensures_bind, ensures_consume, ensures_terminal]
      intro token _
      exact ⟨rfl, token, rfl⟩
  refine hpassed.mono ?_
  rintro _ code env₃ ⟨rfl, token₅, rfl⟩
  refine hfallback.ensures _ _ hstatic₂ hlabels₂ ?_
  intro code₂ env₄ h₄ token₆ _
  refine ⟨h₄.static, ?_, ?_, ⟨ty, hsubject, h₂.typed, h₄.typed⟩,
    fun h => h₄.scalar (h₂.scalar h)⟩
  · simp only [h₄.labels, Action.labels]
    omega
  · have hcode₁ : code₁ = erase ((C env.static).1.code (subject.term env.scopes) env.nextLabel
        (env.nextLabel + 1)) := h₂.code
    simp [Action.code, hcode₁, h₄.code]

/-! ## All statements -/

theorem Realizes.consume_then {x : Lowering Unit} {X : Static → Action × Static} (token : Token)
    (h : Realizes x X) :
    Realizes (do
      consume token
      x) X := by
  intro env
  simp only [ensures_bind, ensures_consume]
  exact h { env with last := token }

mutual

theorem Stmt.lower_realizes : ∀ s : Stmt, Realizes s.lower s.elaborate
  | .missing next => by
      intro env
      simp [Stmt.lower]
  | .broken target => by
      intro env
      simp only [Stmt.lower, Stmt.elaborate, ensures_discard]
      refine (target.lower_ensures env).mono ?_
      rintro _ code env₁ ⟨-, rfl, token, rfl⟩
      exact RealizedAction.skip rfl rfl
  | .dangling target next => by
      intro env
      simp [Stmt.lower]
  | .assign target becomes value semicolon => by
      simpa only [Stmt.lower, Stmt.elaborate] using
        lowerAssign_realizes target becomes value semicolon
  | .choose target becomes guard question first colon second semicolon =>
      lowerChoose_realizes target becomes guard question first colon second semicolon
  | .call callee opening arguments closing semicolon =>
      lowerCall_realizes callee opening arguments closing semicolon
  | .branch keyword condition body =>
      lowerBranch_realizes keyword condition body.lower_realizes Realizes.pure
  | .branchElse keyword condition body otherwise alternative =>
      lowerBranch_realizes keyword condition body.lower_realizes
        (alternative.lower_realizes.consume_then otherwise)
  | .whileLoop keyword condition body =>
      lowerWhile_realizes keyword condition body.lower_realizes
  | .forLoop keyword opening init afterInit test afterTest step closing body =>
      lowerFor_realizes keyword opening init afterInit test afterTest step closing
        body.lower_realizes
  | .switch keyword opening subject closing brace cases fallback fallbackBody closingBrace =>
      lowerSwitch_realizes keyword opening subject closing brace fallback closingBrace
        (lowerCases_realizes cases) (lowerStmts_realizes fallbackBody)
  | .read keyword target semicolon => lowerRead_realizes keyword target semicolon
  | .write keyword operands semicolon => lowerWrite_realizes keyword operands semicolon
  | .block opening items closing => by
      intro env
      simp only [Stmt.lower, Stmt.elaborate, ensures_bind, ensures_consume]
      refine (lowerBlockItems_realizes items _).mono ?_
      intro _ code env₁ h
      simp only [ensures_terminal]
      intro token _
      exact h.past token

theorem lowerStmts_realizes : ∀ stmts : List Stmt,
    Realizes (lowerStmts stmts) (elaborateStmts stmts)
  | [] => Realizes.pure
  | s :: more => s.lower_realizes.bind (lowerStmts_realizes more)

theorem lowerCases_realizes : ∀ cases : List Case,
    RealizesCases (fun ty subject exit => lowerCases ty subject exit cases) (elaborateCases cases)
  | [] => by
      intro subject ty exit env
      simp only [lowerCases]
      rw [ensures_pure]
      exact ⟨rfl, rfl, by simp [elaborateCases, Cases.code], trivial, id⟩
  | .mk keyword label colon body :: more => by
      intro subject ty exit env
      simp only [lowerCases, Case.lower, ensures_bind]
      refine (lowerCase_ensures (lowerStmts_realizes body) subject ty exit keyword label colon
        env).mono ?_
      rintro _ code env₁ ⟨hstatic, hlabels, rfl, hlabel, hbody, hscalar⟩
      refine (lowerCases_realizes more subject ty exit env₁).mono ?_
      intro _ code' env₂ h
      rw [hstatic, hlabels] at h
      refine ⟨h.static, ?_, ?_, ⟨hlabel, hbody, h.typed⟩, fun hst => h.scalar (hscalar hst)⟩
      · have hcount := h.labels
        simp only [elaborateCases, Cases.labels]
        omega
      · simp [elaborateCases, Cases.code, h.code]

theorem lowerBlockItems_realizes : ∀ items : List BlockItem,
    Realizes (lowerBlockItems items) (elaborateBlock items)
  | [] => Realizes.pure
  | item :: more => item.lower_realizes.bind (lowerBlockItems_realizes more)

theorem BlockItem.lower_realizes : ∀ item : BlockItem, Realizes item.lower item.elaborate
  | .declaration d => d.lower_realizes
  | .statement s => s.lower_realizes
  | .skipped token => by
      intro env
      simp [BlockItem.lower]

end

end SlotLang
