import Mathlib.Logic.Relation
import SlotLang.Proofs.JumpTargets
import SlotLang.Proofs.ScopeGrowth

/-!
# What a phrase leaves alone

Whatever is wrong with a statement or a declaration, what it does to its surroundings is limited.
Lowering it passes tokens, draws labels, and declares constants, variables, arrays and structs: these
are the steps below, and everything else is said about them only.  A step can add a symbol to the
innermost scope and touches no other scope, no external name and no signature.

A procedure opens a scope, and inside it anything can be declared, procedures included.  All that is
gone when the scope is closed, so that its declaration is the one trace of a procedure in the scopes.
-/

namespace SlotLang

open Lowering Aggregate

/-! ## Steps -/

/-- The struct consists of constants and variables. -/
def Aggregate.StructDef.IsStored (d : StructDef) : Prop :=
  ∀ m ∈ d.members, m.kind.hasStorage = true

def Aggregate.StructTable.IsStored (table : StructTable) : Prop :=
  ∀ d ∈ table.defs, d.IsStored

/-- An environment in which a name can be declared. -/
structure Env.Ready (env : Env) : Prop where
  ne_nil : env.scopes.scopes ≠ []
  structs : env.structs.IsStored

inductive Env.Step : Env → Env → Prop where
  | pass (env : Env) (token : Token) : Step env { env with last := token }
  | draw (env : Env) : Step env { env with nextLabel := env.nextLabel + 1 }
  | declare (env : Env) {s : Symbol} :
      s.kind.hasStorage = true → Step env { env with scopes := env.scopes.pushCurrent s }
  | register (env : Env) (key : ArrayKey) :
      Step env { env with arrays := env.arrays.insert key }
  | define (env : Env) {d : StructDef} :
      d.IsStored → Step env { env with structs := env.structs.define d }

abbrev Env.Steps : Env → Env → Prop := Relation.ReflTransGen Env.Step

theorem Aggregate.StructTable.IsStored.get {table : StructTable} {name : String} {d : StructDef}
    (h : table.IsStored) (hd : table.get? name = some d) : d.IsStored :=
  h d (List.mem_of_find?_eq_some hd)

theorem Aggregate.StructTable.IsStored.define {table : StructTable} {d : StructDef}
    (h : table.IsStored) (hd : d.IsStored) : (table.define d).IsStored := by
  unfold StructTable.define
  split
  · exact h
  · exact List.forall_mem_cons.mpr ⟨hd, h⟩

theorem Aggregate.StructDef.IsStored.instanceMembers {d : StructDef} (h : d.IsStored)
    (owner : String) : ∀ m ∈ d.instanceMembers owner, m.kind.hasStorage = true := by
  intro m hm
  obtain ⟨below, hbelow, rfl⟩ := List.mem_map.mp hm
  exact h below hbelow

theorem ScopeStack.pushCurrent_ne_nil {st : ScopeStack} (s : Symbol) (h : st.scopes ≠ []) :
    (st.pushCurrent s).scopes ≠ [] := by
  obtain ⟨_ | ⟨scope, outer⟩, externals, procedures⟩ := st
  · exact h
  · simp [pushCurrent]

theorem Env.Step.ready {env env' : Env} (h : env.Step env') (henv : env.Ready) : env'.Ready := by
  cases h with
  | pass token => exact ⟨henv.ne_nil, henv.structs⟩
  | draw => exact ⟨henv.ne_nil, henv.structs⟩
  | declare hs => exact ⟨ScopeStack.pushCurrent_ne_nil _ henv.ne_nil, henv.structs⟩
  | register key => exact ⟨henv.ne_nil, henv.structs⟩
  | define hd => exact ⟨henv.ne_nil, henv.structs.define hd⟩

theorem Env.Steps.ready {env env' : Env} (h : env.Steps env') (henv : env.Ready) : env'.Ready := by
  induction h with
  | refl => exact henv
  | tail _ hstep ih => exact hstep.ready ih

/-- Where there is a scope, a declaration of a constant or a variable goes to the innermost one. -/
theorem Env.Steps.declareStorage {env : Env} (h : env.scopes.scopes ≠ []) (name : String)
    {kind : SymbolKind} (hkind : kind.hasStorage = true) (ty : Ty) :
    env.Steps { env with scopes := (env.scopes.declareStorage name kind ty).2 } := by
  obtain ⟨⟨_ | ⟨scope, outer⟩, externals, procedures⟩, structs, arrays, signatures, label, last⟩ := env
  · simp at h
  · rw [ScopeStack.declareStorage_cons]
    exact .single (.declare _ (s := ⟨name, kind, ty, outer.length, some scope.slots⟩) hkind)

theorem Env.Steps.declareAll {env : Env} (h : env.scopes.scopes ≠ []) {members : List Member}
    (hmembers : ∀ m ∈ members, m.kind.hasStorage = true) :
    env.Steps { env with scopes := env.scopes.declareAll members } := by
  induction members generalizing env with
  | nil => exact .refl
  | cons m members ih =>
    obtain ⟨hm, hmembers⟩ := List.forall_mem_cons.mp hmembers
    have hfirst := Env.Steps.declareStorage h m.path hm m.ty
    have hgrows := (ScopeStack.extends_declareStorage h m.path m.kind m.ty).grows
    exact hfirst.trans (@ih { env with scopes := _ } (hgrows.ne_nil h) hmembers)

/-! ## Phrases that take only such steps -/

/-- The phrase takes steps, and what it gives has the property. -/
def Modest {α : Type} (Q : α → Prop) (x : Lowering α) : Prop :=
  ∀ env : Env, env.Ready → env.Steps (x env).env ∧ Q (x env).value

/-- Says nothing of a value. -/
def Anything {α : Type} (_ : α) : Prop := True

namespace Modest

variable {α β : Type} {P : α → Prop} {Q : β → Prop}

theorem pure {a : α} (h : P a) : Modest P (Pure.pure a : Lowering α) := fun _ _ => ⟨.refl, h⟩

theorem done (a : α) : Modest Anything (Pure.pure a : Lowering α) := .pure trivial

theorem bind {x : Lowering α} {f : α → Lowering β} (hx : Modest P x)
    (hf : ∀ a, P a → Modest Q (f a)) : Modest Q (x >>= f) := by
  intro env henv
  obtain ⟨hfirst, hvalue⟩ := hx env henv
  obtain ⟨hsecond, hresult⟩ := hf _ hvalue _ (hfirst.ready henv)
  exact ⟨hfirst.trans hsecond, hresult⟩

theorem discard {x : Lowering α} (hx : Modest P x) : Modest Anything (Functor.discard x) :=
  hx.bind fun _ _ => .done _

theorem env : Modest Env.Ready Lowering.env := fun _ henv => ⟨.refl, henv⟩

theorem freshLabel : Modest Anything Lowering.freshLabel :=
  fun env _ => ⟨.single (.draw env), trivial⟩

theorem emitAll (code : List Instruction) : Modest Anything (Lowering.emitAll code) :=
  fun _ _ => ⟨.refl, trivial⟩

theorem emit (op : Op) : Modest Anything (Lowering.emit op) := .emitAll _

theorem land (label : Label) : Modest Anything (Lowering.land label) := .emitAll _

theorem captured {x : Lowering α} (hx : Modest P x) : Modest Anything (Lowering.captured x) :=
  fun env henv => ⟨(hx env henv).1, trivial⟩

theorem consume (token : Token) : Modest Anything (Lowering.consume token) :=
  fun env _ => ⟨.single (.pass env token), trivial⟩

theorem refuseBefore (next : Token) (fault : Fault) :
    Modest Anything (Lowering.refuseBefore next fault) := fun _ _ => ⟨.refl, trivial⟩

theorem refuse (fault : Fault) : Modest Anything (Lowering.refuse fault) :=
  fun _ _ => ⟨.refl, trivial⟩

theorem skip (production : String) (token : Token) :
    Modest Anything (Lowering.skip production token) :=
  .bind (.refuseBefore _ _) fun _ _ => .consume _

theorem check (rule : Except Fault α) : Modest Anything (Lowering.check rule) := by
  cases rule with
  | ok a => exact .done ()
  | error fault => exact .refuse fault

theorem terminal (t : Terminal) : Modest Anything t.lower := by
  cases t with
  | read token => exact .consume token
  | missing kind next => exact .refuseBefore _ _

theorem load (target : Resolved) : Modest Anything (Lowering.load target) :=
  .bind .env fun _ _ => .emit _

theorem store (target : Resolved) : Modest Anything (Lowering.store target) :=
  .bind .env fun _ _ => .emit _

theorem resolve (name : String) : Modest Anything (Lowering.resolve name) := by
  refine .bind .env fun env _ => ?_
  dsimp only
  split
  · exact .bind (.refuse _) fun _ _ => .done _
  · exact .done _

end Modest

/-! ### Designators and expressions -/

theorem Index.lower_modest (i : Index) : Modest Anything i.lower :=
  .bind (.consume _) fun _ _ => .bind (.terminal _) fun _ _ => .terminal _

theorem lowerIndices_modest (indices : List Index) : Modest Anything (lowerIndices indices) := by
  induction indices with
  | nil => exact .done ()
  | cons i indices ih => exact .bind i.lower_modest fun _ _ => ih

theorem lowerMemberRefs_modest (members : List MemberRef) :
    Modest Anything (lowerMemberRefs members) := by
  induction members with
  | nil => exact .done ()
  | cons m members ih =>
    exact .bind (.consume _) fun _ _ => .bind (.terminal _) fun _ _ =>
      .bind (lowerIndices_modest _) fun _ _ => ih

theorem Designator.lower_modest (d : Designator) : Modest Anything d.lower :=
  .bind (.terminal _) fun _ _ => .bind (lowerIndices_modest _) fun _ _ =>
    .bind (lowerMemberRefs_modest _) fun _ _ => .done _

theorem Designator.lowerTarget_modest (d : Designator) : Modest Anything d.lowerTarget := by
  refine .bind d.lower_modest fun name _ => ?_
  cases name with
  | none => exact .done none
  | some name => exact .resolve name

namespace Expr

theorem lowerNumber_modest (token : Token) : Modest Anything (lowerNumber token) := by
  refine .bind (.consume _) fun _ _ => ?_
  cases Text.integer? token.value with
  | none => exact .bind (.refuse _) fun _ _ => .bind (.emit _) fun _ _ => .done _
  | some value => exact .bind (.emit _) fun _ _ => .done _

theorem lowerDesignator_modest (d : Designator) : Modest Anything (lowerDesignator d) := by
  refine .bind d.lowerTarget_modest fun found _ => ?_
  cases found with
  | none => exact .done _
  | some target =>
    dsimp only
    cases Typing.loadable target with
    | ok ty => exact .bind (.load target) fun _ _ => .done _
    | error fault => exact .bind (.refuse fault) fun _ _ => .done _

theorem lowerRelational_modest {right : Lowering Ty} (h : Modest Anything right) (left : Ty)
    (op : Token) : Modest Anything (lowerRelational left op right) := by
  refine .bind (.consume _) fun _ _ => .bind h fun rightTy _ => ?_
  cases Typing.relational left rightTy with
  | ok ty => exact .bind (.emit _) fun _ _ => .done _
  | error fault => exact .bind (.refuse fault) fun _ _ => .done _

theorem lowerArithmetic_modest {right : Lowering Ty} (h : Modest Anything right) (left : Ty)
    (op : Token) : Modest Anything (lowerArithmetic left op right) :=
  .bind (.consume _) fun _ _ => .bind h fun _ _ => .bind (.check _) fun _ _ =>
    .bind (.emit _) fun _ _ => .done _

theorem lower_modest (e : Expr) : Modest Anything e.lower := by
  induction e with
  | missing next => exact .bind (.refuseBefore _ _) fun _ _ => .done _
  | number token => exact lowerNumber_modest token
  | boolean token => exact .bind (.consume _) fun _ _ => .bind (.emit _) fun _ _ => .done _
  | designator d => exact lowerDesignator_modest d
  | negation minus operand ih =>
    exact .bind (.consume _) fun _ _ => .bind ih fun _ _ => .bind (.check _) fun _ _ =>
      .bind (.emit _) fun _ _ => .bind (.emit _) fun _ _ => .bind (.emit _) fun _ _ => .done _
  | grouping opening inside closing ih =>
    exact .bind (.consume _) fun _ _ => .bind ih fun _ _ => .bind (.terminal _) fun _ _ => .done _
  | relational left op right ihLeft ihRight =>
    exact .bind ihLeft fun ty _ => lowerRelational_modest ihRight ty op
  | arithmetic left op right ihLeft ihRight =>
    exact .bind ihLeft fun ty _ => lowerArithmetic_modest ihRight ty op

end Expr

namespace Separated

variable {α β : Type} {f : α → Lowering β}

theorem lower_modest (h : ∀ a, Modest Anything (f a)) (items : Separated α) :
    Modest Anything (items.lower f) := by
  have hothers : ∀ others, Modest Anything (lower.lowerOthers f others) := by
    intro others
    induction others with
    | nil => exact .done _
    | cons item others ih =>
      exact .bind (.consume _) fun _ _ => .bind (h _) fun _ _ => .bind ih fun _ _ => .done _
  exact .bind (h _) fun _ _ => .bind (hothers _) fun _ _ => .done _

theorem lower?_modest (h : ∀ a, Modest Anything (f a)) (items : Option (Separated α)) :
    Modest Anything (lower? items f) := by
  cases items with
  | none => exact .done _
  | some items => exact lower_modest h items

end Separated

/-! ### Declarations -/

theorem ScalarSpec.lower_modest (s : ScalarSpec) : Modest Anything s.lower := by
  cases s with
  | read token => exact .bind (.consume _) fun _ _ => .done _
  | missing next => exact .bind (.refuseBefore _ _) fun _ _ => .done _

theorem TypeSpec.lower_modest (spec : TypeSpec) : Modest Anything spec.lower := by
  cases spec with
  | scalar s => exact .bind s.lower_modest fun _ _ => .done _
  | struct keyword name =>
    exact .bind (.consume _) fun _ _ => .bind (.terminal _) fun _ _ => .done _

theorem lowerBounds_modest (indices : List Index) : Modest Anything (lowerBounds indices) := by
  induction indices with
  | nil => exact .done _
  | cons i indices ih =>
    refine .bind (.consume _) fun _ _ => .bind (.terminal _) fun _ _ => ?_
    have hrest : ∀ bound : List Nat, Modest Anything (do
        i.closing.lower
        let bounds ← lowerBounds indices
        return bound ++ bounds) :=
      fun bound => .bind (.terminal _) fun _ _ => .bind ih fun _ _ => .done _
    cases i.number with
    | missing kind next => exact .bind (.done _) fun bound _ => hrest bound
    | read token =>
      dsimp only
      cases Text.word? token.value with
      | none => exact .bind (.refuse _) fun _ _ => .bind (.done _) fun bound _ => hrest bound
      | some n => exact .bind (.done _) fun bound _ => hrest bound

theorem registerArray_modest (key : ArrayKey) : Modest Anything (registerArray key) := by
  have hinsert : Modest Anything
      (modifyEnv fun env => { env with arrays := env.arrays.insert key }) :=
    fun env _ => ⟨.single (.register env key), trivial⟩
  refine .bind .env fun env _ => ?_
  split
  · exact .bind (.refuse _) fun _ _ => hinsert
  · exact hinsert

theorem variableElements_modest (name : String) (ty : DeclaredTy) (bounds : List Nat) :
    Modest Anything (variableElements name ty bounds) := by
  unfold variableElements
  split
  · exact .done _
  · refine .bind (registerArray_modest _) fun _ _ => ?_
    split
    · exact .done _
    · exact .bind (.refuse _) fun _ _ => .done _

theorem declareMembers_modest {members : List Member}
    (h : ∀ m ∈ members, m.kind.hasStorage = true) : Modest Anything (declareMembers members) :=
  fun _ henv => ⟨.declareAll henv.ne_nil h, trivial⟩

theorem declareVariable_modest (name : String) (ty : DeclaredTy) (bounds : List Nat) :
    Modest Anything (declareVariable name ty bounds) := by
  refine .bind (variableElements_modest name ty bounds) fun found _ => ?_
  cases found with
  | none => exact .done ()
  | some names =>
    cases ty with
    | scalar ty =>
      refine declareMembers_modest ?_
      simp [SymbolKind.hasStorage]
    | struct structName =>
      refine .bind .env fun env henv => ?_
      split
      · exact .refuse _
      next d hd =>
        split
        · exact .refuse _
        · refine declareMembers_modest fun m hm => ?_
          obtain ⟨owner, -, hm⟩ := List.mem_flatMap.mp hm
          exact (henv.structs.get hd).instanceMembers owner m hm

theorem Declarator.lower_modest (ty : DeclaredTy) (d : Declarator) :
    Modest Anything (d.lower ty) := by
  refine .bind (.terminal _) fun _ _ => .bind (lowerBounds_modest _) fun bounds _ => ?_
  split
  · exact declareVariable_modest _ ty bounds
  · exact .done ()

theorem ConstEntry.lower_modest (entry : ConstEntry) : Modest Anything entry.lower := by
  refine .bind entry.ty.lower_modest fun ty _ => .bind (.terminal _) fun _ _ => ?_
  split
  next name becomes value _ _ =>
    have hdeclare : Modest Anything (withScopes fun st => st.declareStorage name .const ty) :=
      fun _ henv => ⟨.declareStorage henv.ne_nil name rfl ty, trivial⟩
    exact .bind hdeclare fun _ _ => .bind (.terminal _) fun _ _ =>
      .bind value.lower_modest fun _ _ => .bind (.check _) fun _ _ => .store _
  next => exact .done ()

theorem addMembers_modest {d : StructDef} (hd : d.IsStored) (name : String) (ty : DeclaredTy)
    (bounds : List Nat) : Modest StructDef.IsStored (addMembers d name ty bounds) := by
  have hadd : ∀ width (expand : List String → List Member),
      (∀ paths, ∀ m ∈ expand paths, m.kind.hasStorage = true) →
      Modest StructDef.IsStored (addMembers.add d name bounds width expand) := by
    intro width expand hexpand
    unfold addMembers.add
    split
    · exact .bind (.refuse _) fun _ _ => .pure hd
    · split
      · exact .bind (.refuse _) fun _ _ => .pure hd
      · exact .pure (List.forall_mem_append.mpr ⟨hd, hexpand _⟩)
  cases ty with
  | scalar ty =>
    refine hadd _ _ ?_
    simp [SymbolKind.hasStorage]
  | struct structName =>
    refine .bind .env fun env henv => ?_
    split
    · exact .bind (.refuse _) fun _ _ => .pure hd
    next inside hinside =>
      refine hadd _ _ fun paths m hm => ?_
      obtain ⟨owner, -, hm⟩ := List.mem_flatMap.mp hm
      exact (henv.structs.get hinside).instanceMembers owner m hm

theorem lowerStructItems_modest (items : List StructItem) {d : StructDef} (hd : d.IsStored) :
    Modest StructDef.IsStored (lowerStructItems d items) := by
  induction items generalizing d with
  | nil => exact .pure hd
  | cons item items ih =>
    cases item with
    | skipped token => exact .bind (.skip _ _) fun _ _ => ih hd
    | member spec name bounds semicolon =>
      refine .bind spec.lower_modest fun ty _ => .bind (.terminal _) fun _ _ =>
        .bind (lowerBounds_modest _) fun bounds _ => .bind (.terminal _) fun _ _ => ?_
      split
      · exact .bind (addMembers_modest hd _ ty bounds) fun _ hd => ih hd
      · exact .bind (.pure hd) fun _ hd => ih hd

theorem lowerStructDef_modest (keyword : Token) (name opening : Terminal)
    (items : List StructItem) (closing semicolon : Terminal) :
    Modest Anything (lowerStructDef keyword name opening items closing semicolon) := by
  have hrest : Modest Anything (do
      opening.lower
      let d ← lowerStructItems (.new name.valueD) items
      closing.lower
      semicolon.lower
      modifyEnv fun env => { env with structs := env.structs.define d }) := by
    refine .bind (.terminal _) fun _ _ =>
      .bind (lowerStructItems_modest items (by simp [StructDef.IsStored, StructDef.new])) fun d hd =>
        .bind (.terminal _) fun _ _ => .bind (.terminal _) fun _ _ => ?_
    exact fun env _ => ⟨.single (.define env hd), trivial⟩
  refine .bind (.consume _) fun _ _ => .bind (.terminal _) fun _ _ => .bind .env fun env _ => ?_
  split
  · exact .bind (.refuse _) fun _ _ => hrest
  · exact hrest

theorem Declaration.lower_modest (d : Declaration) : Modest Anything d.lower := by
  cases d with
  | const keyword entries semicolon =>
    exact .bind (.consume _) fun _ _ =>
      .bind (.discard (Separated.lower_modest ConstEntry.lower_modest entries)) fun _ _ =>
        .terminal _
  | vars spec declarators semicolon =>
    exact .bind spec.lower_modest fun ty _ =>
      .bind (.discard (Separated.lower_modest (Declarator.lower_modest ty) declarators))
        fun _ _ => .terminal _
  | structDef keyword name opening items closing semicolon =>
    exact lowerStructDef_modest keyword name opening items closing semicolon

/-! ### Statements -/

theorem checkAssignable_modest (target : Option Resolved) :
    Modest Anything (checkAssignable target) := by
  cases target with
  | none => exact .done ()
  | some target => exact .check _

theorem storeChecked_modest (target : Option Resolved) (ty : Ty) :
    Modest Anything (storeChecked target ty) := by
  cases target with
  | none => exact .done ()
  | some target => exact .bind (.check _) fun _ _ => .store _

theorem lowerAssign_modest (d : Designator) (becomes : Token) (value : Expr)
    (semicolon : Terminal) : Modest Anything (lowerAssign d becomes value semicolon) :=
  .bind d.lowerTarget_modest fun target _ => .bind (.consume _) fun _ _ =>
    .bind (checkAssignable_modest target) fun _ _ => .bind value.lower_modest fun ty _ =>
    .bind (.terminal _) fun _ _ => storeChecked_modest target ty

theorem lowerChoose_modest (d : Designator) (becomes : Token) (guard : Expr) (question : Token)
    (first : Expr) (colon : Terminal) (second : Expr) (semicolon : Terminal) :
    Modest Anything (lowerChoose d becomes guard question first colon second semicolon) :=
  .bind d.lowerTarget_modest fun target _ => .bind (.consume _) fun _ _ =>
    .bind (checkAssignable_modest target) fun _ _ => .bind guard.lower_modest fun _ _ =>
    .bind (.consume _) fun _ _ => .bind (.check _) fun _ _ => .bind .freshLabel fun _ _ =>
    .bind (.emit _) fun _ _ => .bind .freshLabel fun _ _ => .bind first.lower_modest fun firstTy _ =>
    .bind (.terminal _) fun _ _ => .bind (storeChecked_modest target firstTy) fun _ _ =>
    .bind (.emit _) fun _ _ => .bind (.land _) fun _ _ => .bind second.lower_modest fun secondTy _ =>
    .bind (.terminal _) fun _ _ => .bind (storeChecked_modest target secondTy) fun _ _ => .land _

theorem emitCall_modest (target : Resolved) (arguments : List Ty) :
    Modest Anything (emitCall target arguments) := by
  unfold emitCall
  split
  · exact .refuse _
  · refine .bind .env fun here _ => ?_
    dsimp only
    split
    · exact .bind (.check _) fun _ _ => .emit _
    · exact .emit _

theorem lowerCall_modest (callee : Designator) (opening : Token)
    (arguments : Option (Separated Expr)) (closing semicolon : Terminal) :
    Modest Anything (lowerCall callee opening arguments closing semicolon) := by
  refine .bind callee.lowerTarget_modest fun target _ => .bind (.consume _) fun _ _ =>
    .bind (Separated.lower?_modest Expr.lower_modest arguments) fun types _ =>
    .bind (.terminal _) fun _ _ => .bind (.terminal _) fun _ _ => ?_
  cases target with
  | none => exact .done ()
  | some target => exact emitCall_modest target types

theorem lowerRead_modest (keyword : Token) (d : Designator) (semicolon : Terminal) :
    Modest Anything (lowerRead keyword d semicolon) := by
  refine .bind (.consume _) fun _ _ => .bind d.lowerTarget_modest fun target _ =>
    .bind (.terminal _) fun _ _ => ?_
  cases target with
  | none => exact .done ()
  | some target => exact .bind (.check _) fun _ _ => .bind (.emit _) fun _ _ => .store _

theorem lowerWrite_modest (keyword : Token) (operands : Separated Expr) (semicolon : Terminal) :
    Modest Anything (lowerWrite keyword operands semicolon) := by
  have hoperand : ∀ operand, Modest Anything (lowerWriteOperand operand) := fun operand =>
    .bind operand.lower_modest fun _ _ => .bind (.check _) fun _ _ => .emit _
  exact .bind (.consume _) fun _ _ =>
    .bind (.discard (Separated.lower_modest hoperand operands)) fun _ _ => .terminal _

theorem Assignment.lower_modest (a : Assignment) : Modest Anything a.lower := by
  cases a with
  | complete d becomes value =>
    exact .bind d.lowerTarget_modest fun target _ => .bind (.consume _) fun _ _ =>
      .bind (checkAssignable_modest target) fun _ _ => .bind value.lower_modest fun ty _ =>
      storeChecked_modest target ty
  | broken d next => exact .bind (.discard d.lowerTarget_modest) fun _ _ => .refuseBefore _ _

theorem Condition.lower_modest (c : Condition) : Modest Anything c.lower :=
  .bind (.terminal _) fun _ _ => .bind c.test.lower_modest fun _ _ =>
    .bind (.terminal _) fun _ _ => .check _

section Compound

variable {body alternative : Lowering Unit}

theorem lowerBranch_modest (hbody : Modest Anything body) (halternative : Modest Anything alternative)
    (keyword : Token) (condition : Condition) :
    Modest Anything (lowerBranch keyword condition body alternative) :=
  .bind (.consume _) fun _ _ => .bind condition.lower_modest fun _ _ =>
    .bind .freshLabel fun _ _ => .bind (.emit _) fun _ _ => .bind hbody fun _ _ =>
    .bind .freshLabel fun _ _ => .bind (.emit _) fun _ _ => .bind (.land _) fun _ _ =>
    .bind halternative fun _ _ => .land _

theorem lowerWhile_modest (hbody : Modest Anything body) (keyword : Token) (condition : Condition) :
    Modest Anything (lowerWhile keyword condition body) :=
  .bind (.consume _) fun _ _ => .bind .freshLabel fun _ _ => .bind .freshLabel fun _ _ =>
    .bind (.land _) fun _ _ => .bind condition.lower_modest fun _ _ => .bind (.emit _) fun _ _ =>
    .bind hbody fun _ _ => .bind (.emit _) fun _ _ => .land _

theorem lowerFor_modest (hbody : Modest Anything body) (keyword : Token) (opening : Terminal)
    (init : Assignment) (afterInit : Terminal) (test : Expr) (afterTest : Terminal)
    (step : Assignment) (closing : Terminal) : Modest Anything
      (lowerFor keyword opening init afterInit test afterTest step closing body) :=
  .bind (.consume _) fun _ _ => .bind (.terminal _) fun _ _ => .bind init.lower_modest fun _ _ =>
    .bind (.terminal _) fun _ _ => .bind .freshLabel fun _ _ => .bind (.emit _) fun _ _ =>
    .bind .freshLabel fun _ _ => .bind .freshLabel fun _ _ => .bind (.land _) fun _ _ =>
    .bind test.lower_modest fun _ _ => .bind (.terminal _) fun _ _ =>
    .bind step.lower_modest fun _ _ => .bind (.terminal _) fun _ _ => .bind (.check _) fun _ _ =>
    .bind (.emit _) fun _ _ => .bind hbody fun _ _ => .bind (.land _) fun _ _ =>
    .bind (.emit _) fun _ _ => .land _

theorem lowerCase_modest (hbody : Modest Anything body) (subjectTy : Ty)
    (subject : List Instruction) (endLabel : Label) (keyword : Token) (label : Expr)
    (colon : Terminal) : Modest Anything
      (lowerCase subjectTy subject endLabel keyword label colon body) :=
  .bind (.consume _) fun _ _ => .bind (.emitAll _) fun _ _ => .bind label.lower_modest fun _ _ =>
    .bind (.terminal _) fun _ _ => .bind (.check _) fun _ _ => .bind .freshLabel fun _ _ =>
    .bind (.emit _) fun _ _ => .bind (.emit _) fun _ _ => .bind hbody fun _ _ =>
    .bind (.emit _) fun _ _ => .land _

theorem lowerFallback_modest (fallback : Option (Token × Terminal)) :
    Modest Anything (lowerFallback fallback) := by
  cases fallback with
  | none => exact .done ()
  | some parts => exact .bind (.consume _) fun _ _ => .terminal _

theorem lowerSwitch_modest {cases : Ty → List Instruction → Label → Lowering Unit}
    (hcases : ∀ ty code label, Modest Anything (cases ty code label)) (hbody : Modest Anything body)
    (keyword : Token) (opening : Terminal) (subject : Expr) (closing brace : Terminal)
    (fallback : Option (Token × Terminal)) (closingBrace : Terminal) : Modest Anything
      (lowerSwitch keyword opening subject closing brace cases fallback body closingBrace) :=
  .bind (.consume _) fun _ _ => .bind (.terminal _) fun _ _ =>
    .bind (.captured subject.lower_modest) fun _ _ => .bind (.terminal _) fun _ _ =>
    .bind (.terminal _) fun _ _ => .bind .freshLabel fun _ _ => .bind (hcases _ _ _) fun _ _ =>
    .bind (lowerFallback_modest fallback) fun _ _ => .bind hbody fun _ _ =>
    .bind (.terminal _) fun _ _ => .land _

end Compound

mutual

theorem Stmt.lower_modest : ∀ s : Stmt, Modest Anything s.lower
  | .missing _ => .refuseBefore _ _
  | .broken target => .discard target.lower_modest
  | .dangling target _ => .bind (.discard target.lowerTarget_modest) fun _ _ => .refuseBefore _ _
  | .assign target becomes value semicolon => lowerAssign_modest target becomes value semicolon
  | .choose target becomes guard question first colon second semicolon =>
      lowerChoose_modest target becomes guard question first colon second semicolon
  | .call callee opening arguments closing semicolon =>
      lowerCall_modest callee opening arguments closing semicolon
  | .branch keyword condition body =>
      lowerBranch_modest body.lower_modest (.done ()) keyword condition
  | .branchElse keyword condition body _ alternative =>
      lowerBranch_modest body.lower_modest
        (.bind (.consume _) fun _ _ => alternative.lower_modest) keyword condition
  | .whileLoop keyword condition body => lowerWhile_modest body.lower_modest keyword condition
  | .forLoop keyword opening init afterInit test afterTest step closing body =>
      lowerFor_modest body.lower_modest keyword opening init afterInit test afterTest step closing
  | .switch keyword opening subject closing brace cases fallback fallbackBody closingBrace =>
      lowerSwitch_modest (lowerCases_modest cases) (lowerStmts_modest fallbackBody) keyword opening
        subject closing brace fallback closingBrace
  | .read keyword target semicolon => lowerRead_modest keyword target semicolon
  | .write keyword operands semicolon => lowerWrite_modest keyword operands semicolon
  | .block _ items _ => .bind (.consume _) fun _ _ =>
      .bind (lowerBlockItems_modest items) fun _ _ => .terminal _

theorem lowerStmts_modest : ∀ stmts : List Stmt, Modest Anything (lowerStmts stmts)
  | [] => .done ()
  | s :: more => .bind s.lower_modest fun _ _ => lowerStmts_modest more

theorem lowerCases_modest : ∀ (cases : List Case) (ty : Ty) (code : List Instruction)
    (endLabel : Label), Modest Anything (lowerCases ty code endLabel cases)
  | [], _, _, _ => .done ()
  | .mk keyword label colon body :: more, ty, code, endLabel =>
      .bind (lowerCase_modest (lowerStmts_modest body) ty code endLabel keyword label colon)
        fun _ _ => lowerCases_modest more ty code endLabel

theorem lowerBlockItems_modest : ∀ items : List BlockItem, Modest Anything (lowerBlockItems items)
  | [] => .done ()
  | item :: more => .bind item.lower_modest fun _ _ => lowerBlockItems_modest more

theorem BlockItem.lower_modest : ∀ item : BlockItem, Modest Anything item.lower
  | .declaration d => d.lower_modest
  | .statement s => s.lower_modest
  | .skipped token => .skip _ token

end

/-! ## What steps add up to -/

/-- The symbols have been added to the innermost scope, and nothing else has happened. -/
structure ScopeStack.Adds (st st' : ScopeStack) (added : List Symbol) : Prop where
  externals : st'.externals = st.externals
  procedures : st'.openProcedures = st.openProcedures
  scopes : ∃ (scope grown : Scope) (outer : List Scope), st.scopes = scope :: outer ∧
    st'.scopes = grown :: outer ∧ grown.symbols = scope.symbols ++ added

namespace ScopeStack.Adds

variable {st st₁ st₂ : ScopeStack} {first second : List Symbol}

theorem refl (h : st.scopes ≠ []) : st.Adds st [] := by
  obtain ⟨scope, outer, hscopes⟩ := List.exists_cons_of_ne_nil h
  exact ⟨rfl, rfl, scope, scope, outer, hscopes, hscopes, (List.append_nil _).symm⟩

theorem trans (h₁ : st.Adds st₁ first) (h₂ : st₁.Adds st₂ second) :
    st.Adds st₂ (first ++ second) := by
  obtain ⟨scope, grown, outer, hst, hst₁, hfirst⟩ := h₁.scopes
  obtain ⟨scope', grown', outer', hst₁', hst₂, hsecond⟩ := h₂.scopes
  rw [hst₁] at hst₁'
  obtain ⟨rfl, rfl⟩ := List.cons.inj hst₁'
  refine ⟨h₂.externals.trans h₁.externals, h₂.procedures.trans h₁.procedures, scope, grown', outer,
    hst, hst₂, ?_⟩
  rw [hsecond, hfirst, List.append_assoc]

theorem pushCurrent (h : st.scopes ≠ []) (s : Symbol) : st.Adds (st.pushCurrent s) [s] := by
  obtain ⟨_ | ⟨scope, outer⟩, externals, procedures⟩ := st
  · simp at h
  · exact ⟨rfl, rfl, scope, scope.push s, outer, rfl, rfl, Scope.symbols_push scope s⟩

/-- The scope of a procedure is closed with all that was added to it. -/
theorem exitProcedure {name : String}
    (h : Adds ⟨.empty :: st.scopes, st.externals, name :: st.openProcedures⟩ st₁ first) :
    st₁.exitProcedure.2 = st := by
  obtain ⟨scopes, externals, procedures⟩ := st
  obtain ⟨scopes₁, externals₁, procedures₁⟩ := st₁
  obtain ⟨hexternals, hprocedures, scope, grown, outer, houter, hgrown, -⟩ := h
  simp_all [ScopeStack.exitProcedure, closeScope]

theorem ne_nil (h : st.Adds st₁ first) : st₁.scopes ≠ [] := by
  obtain ⟨_, grown, outer, -, hscopes, -⟩ := h.scopes
  simp [hscopes]

end ScopeStack.Adds

theorem Env.Step.adds {env env' : Env} (h : env.Step env') (hne : env.scopes.scopes ≠ []) :
    env'.signatures = env.signatures ∧ ∃ added, env.scopes.Adds env'.scopes added ∧
      ∀ s ∈ added, s.kind.hasStorage = true := by
  cases h with
  | pass | draw | register | define => exact ⟨rfl, [], .refl hne, by simp⟩
  | declare hs => exact ⟨rfl, [_], .pushCurrent hne _, by simpa using hs⟩

theorem Env.Steps.adds {env env' : Env} (h : env.Steps env') (hne : env.scopes.scopes ≠ []) :
    env'.signatures = env.signatures ∧ ∃ added, env.scopes.Adds env'.scopes added ∧
      ∀ s ∈ added, s.kind.hasStorage = true := by
  induction h with
  | refl => exact ⟨rfl, [], .refl hne, by simp⟩
  | tail _ hstep ih =>
    obtain ⟨hsignatures, added, hadds, hstorage⟩ := ih
    obtain ⟨hsignatures', more, hmore, hstorage'⟩ := hstep.adds hadds.ne_nil
    exact ⟨hsignatures'.trans hsignatures, added ++ more, hadds.trans hmore,
      List.forall_mem_append.mpr ⟨hstorage, hstorage'⟩⟩

/-! ## Procedures -/

/-- The code lands the labels from `lo` to below `hi`, each of them once, and no other. -/
structure LandsDrawn (lo hi : Nat) (code : List Instruction) : Prop where
  le : lo ≤ hi
  landed : ∀ n, landed n code = if lo ≤ n ∧ n < hi then 1 else 0

namespace LandsDrawn

variable {lo mid hi : Nat} {code first second : List Instruction}

theorem of_landsIn (h : LandsIn [] [] lo hi code) : LandsDrawn lo hi code :=
  ⟨h.le, fun n => by simpa using h.landed n⟩

theorem append (h₁ : LandsDrawn lo mid first) (h₂ : LandsDrawn mid hi second) :
    LandsDrawn lo hi (first ++ second) where
  le := Nat.le_trans h₁.le h₂.le
  landed n := by
    have hle₁ := h₁.le
    have hle₂ := h₂.le
    rw [landed_append, h₁.landed, h₂.landed]
    grind

theorem of_landed (h : ∀ n, SlotLang.landed n code = 0) (lo : Nat) : LandsDrawn lo lo code :=
  ⟨Nat.le_refl lo, fun n => by rw [h n, if_neg (by omega)]⟩

/-- Neither the label of a procedure nor its end counts among the labels drawn. -/
theorem procedure (h : LandsDrawn lo hi code) (label : String) (size : Nat) :
    LandsDrawn lo hi
      (.labelled (.named label) (.enter size) :: (code ++ [.plain .leave, .plain .ret])) := by
  have henter : LandsDrawn lo lo [.labelled (.named label) (.enter size)] :=
    .of_landed (fun n => by simp [SlotLang.landed, Instruction.labelled]) lo
  exact henter.append (h.append (.of_landed (fun _ => rfl) hi))

/-- The label past a nested procedure is drawn in front of it and landed behind it. -/
theorem nested (h : LandsDrawn (lo + 1) hi code) (op : Op) :
    LandsDrawn lo hi (.plain op :: (code ++ [.landing (.fresh lo)])) where
  le := Nat.le_of_succ_le h.le
  landed n := by
    have hle := h.le
    have hcount : SlotLang.landed n (.plain op :: (code ++ [.landing (.fresh lo)])) =
        SlotLang.landed n code + if lo = n then 1 else 0 := by
      simp [SlotLang.landed, Instruction.plain, Instruction.landing, Instruction.labelled,
        List.countP_cons]
    rw [hcount, h.landed]
    grind

end LandsDrawn

/-- What a phrase of any kind leaves behind. -/
structure Outcome.Leaves {α : Type} (env : Env) (added : List Symbol) (o : Outcome α) : Prop where
  scopes : env.scopes.Adds o.env.scopes added
  structs : o.env.structs.IsStored
  labels : LandsDrawn env.nextLabel o.env.nextLabel o.code

/-- A phrase that can stand in the body of a procedure. -/
def StaysInside {α : Type} (x : Lowering α) : Prop :=
  ∀ env : Env, env.Ready → ∃ added, (x env).Leaves env added

theorem Modest.staysInside {α : Type} {P : α → Prop} {x : Lowering α} (h : Modest P x)
    (hlands : Lands [] [] x) : StaysInside x := by
  intro env henv
  obtain ⟨hsteps, -⟩ := h env henv
  obtain ⟨-, added, hadds, -⟩ := hsteps.adds henv.ne_nil
  exact ⟨added, hadds, (hsteps.ready henv).structs, .of_landsIn (hlands env (by simp))⟩

namespace StaysInside

variable {α β : Type}

theorem bind {x : Lowering α} {f : α → Lowering β} (hx : StaysInside x)
    (hf : ∀ a, StaysInside (f a)) : StaysInside (x >>= f) := by
  intro env henv
  obtain ⟨added, hfirst⟩ := hx env henv
  obtain ⟨more, hsecond⟩ := hf (x env).value (x env).env ⟨hfirst.scopes.ne_nil, hfirst.structs⟩
  exact ⟨added ++ more, hfirst.scopes.trans hsecond.scopes, hsecond.structs,
    hfirst.labels.append hsecond.labels⟩

theorem terminal (t : Terminal) : StaysInside t.lower :=
  (Modest.terminal t).staysInside ((Straight.terminal t).lands [])

theorem registerSignature (label : String) (signature : Signature) :
    StaysInside (registerSignature label signature) :=
  fun _ henv => ⟨[], .refl henv.ne_nil, henv.structs, .of_landed (fun _ => rfl) _⟩

end StaysInside

theorem ScopeStack.declareLocal_eq_declareStorage {st : ScopeStack} (h : st.scopes ≠ [])
    (name : String) (kind : SymbolKind) (ty : Ty) :
    st.declareLocal name kind ty = st.declareStorage name kind ty := by
  obtain ⟨_ | ⟨scope, outer⟩, externals, procedures⟩ := st
  · simp at h
  · rw [declareLocal_cons, declareStorage_cons]

theorem Param.lower_modest (p : Param) : Modest Anything p.lower := by
  refine .bind p.ty.lower_modest fun ty _ => .bind (.terminal _) fun _ _ => ?_
  split
  next name _ =>
    have hdeclare : Modest Anything (withScopes fun st => st.declareLocal name .var ty) := by
      intro env henv
      have hsteps := Env.Steps.declareStorage henv.ne_nil name
        (show SymbolKind.var.hasStorage = true from rfl) ty
      rw [← ScopeStack.declareLocal_eq_declareStorage henv.ne_nil] at hsteps
      exact ⟨hsteps, trivial⟩
    exact .bind (.discard hdeclare) fun _ _ => .done ty
  next => exact .done ty

theorem lowerProcedureBody_staysInside {body : Lowering Unit} (hbody : StaysInside body)
    (label : String) (name opening : Terminal) (params : Option (Separated Param))
    (closing brace closingBrace : Terminal) : StaysInside
      (lowerProcedureBody label name opening params closing brace body closingBrace) := by
  have hparams : StaysInside (Separated.lower? params Param.lower) :=
    (Separated.lower?_modest Param.lower_modest params).staysInside
      ((Separated.lower?_straight Param.lower_straight params).lands [])
  have hstore : ∀ count, StaysInside (emitAll (storeArguments count)) := fun count =>
    (Modest.emitAll _).staysInside ((Straight.emitAll (storeArguments_straight count)).lands [])
  exact .bind (.terminal _) fun _ => .bind hparams fun types => .bind (.terminal _) fun _ =>
    .bind (.registerSignature _ _) fun _ => .bind (hstore types.length) fun _ =>
    .bind (.terminal _) fun _ => .bind hbody fun _ => .terminal _

/-- The phrase leaves a procedure behind in the innermost scope. -/
def LeavesProcedure (x : Lowering Unit) (name : String) : Prop :=
  ∀ env : Env, env.Ready →
    (x env).Leaves env [⟨name, .procedure, .undefined, env.scopes.depth, none⟩]

/-- The head of a procedure declares it where it stands and opens an empty scope. -/
theorem openProcedure_spec (keyword : Token) (name : Terminal) (env : Env)
    (h : env.scopes.scopes ≠ []) :
    let declared := env.scopes.pushCurrent
      ⟨name.valueD, .procedure, .undefined, env.scopes.depth, none⟩
    (openProcedure keyword name env).env.scopes =
      ⟨.empty :: declared.scopes, declared.externals, name.valueD :: declared.openProcedures⟩ ∧
    (openProcedure keyword name env).env.structs = env.structs ∧
    (openProcedure keyword name env).env.nextLabel = env.nextLabel ∧
    (openProcedure keyword name env).code = [] := by
  obtain ⟨⟨_ | ⟨scope, outer⟩, externals, procedures⟩, structs, arrays, signatures, label, last⟩ := env
  · simp at h
  · cases name <;> exact ⟨rfl, rfl, rfl, rfl⟩

theorem lowerProcedure_leaves {body : Lowering Unit} (hbody : StaysInside body) (keyword : Token)
    (name opening : Terminal) (params : Option (Separated Param))
    (closing brace closingBrace : Terminal) : LeavesProcedure
      (lowerProcedure keyword name opening params closing brace body closingBrace) name.valueD := by
  intro env henv
  obtain ⟨hopened, hstructs, hlabel, hcode⟩ := openProcedure_spec keyword name env henv.ne_nil
  have hready : (openProcedure keyword name env).env.Ready :=
    ⟨by simp [hopened], hstructs ▸ henv.structs⟩
  obtain ⟨added, hinside⟩ := lowerProcedureBody_staysInside hbody
    (openProcedure keyword name env).value name opening params closing brace closingBrace _ hready
  have hlabels := hinside.labels
  rw [hlabel] at hlabels
  refine ⟨?_, hinside.structs, ?_⟩
  · have hinner := hinside.scopes
    rw [hopened] at hinner
    have hadds := ScopeStack.Adds.pushCurrent henv.ne_nil
      ⟨name.valueD, .procedure, .undefined, env.scopes.depth, none⟩
    rw [← hinner.exitProcedure] at hadds
    exact hadds
  · change LandsDrawn _ _ ((openProcedure keyword name env).code ++ _)
    rw [hcode]
    exact hlabels.procedure _ _

theorem lowerNested_staysInside {procedure : Lowering Unit} {name : String}
    (h : LeavesProcedure procedure name) : StaysInside (lowerNested procedure) := by
  intro env henv
  have hready : Env.Ready { env with nextLabel := env.nextLabel + 1 } :=
    ⟨henv.ne_nil, henv.structs⟩
  have hleaves := h _ hready
  exact ⟨_, hleaves.scopes, hleaves.structs, hleaves.labels.nested _⟩

mutual

theorem Procedure.lower_leaves : ∀ p : Procedure, ∃ name, LeavesProcedure p.lower name
  | .mk keyword name opening params closing brace body closingBrace =>
      ⟨name.valueD, lowerProcedure_leaves (lowerBodyItems_staysInside body) keyword name opening params
        closing brace closingBrace⟩

theorem lowerBodyItems_staysInside : ∀ items : List BodyItem, StaysInside (lowerBodyItems items)
  | [] => (Modest.done ()).staysInside ((Straight.pure ()).lands [])
  | item :: more => .bind item.lower_staysInside fun _ => lowerBodyItems_staysInside more

theorem BodyItem.lower_staysInside : ∀ item : BodyItem, StaysInside item.lower
  | .declaration d => d.lower_modest.staysInside (d.lower_straight.lands [])
  | .statement s => s.lower_modest.staysInside s.lower_lands
  | .nested p => by
      obtain ⟨name, hp⟩ := p.lower_leaves
      exact lowerNested_staysInside hp
  | .skipped token => (Modest.skip _ token).staysInside ((Straight.skip _ token).lands [])

end

/-! ## Sessions -/

/-- Between the two sessions the symbols were added to the innermost scope, and code was added to the
code there was, in which the labels drawn in between are landed. -/
structure Session.Contained (s s' : Session) (added : List Symbol) : Prop where
  scopes : s.scopes.Adds s'.scopes added
  structs : s'.env.structs.IsStored
  pending : s'.pending = s.pending
  code : ∃ new : List Instruction, s'.code.toList = s.code.toList ++ new ∧
    LandsDrawn s.env.nextLabel s'.env.nextLabel new

theorem Outcome.Leaves.contained {τ α : Type} {s : Session} {read : Window → τ × Window}
    {lower : τ → Lowering α} {added : List Symbol}
    (h : (lower (read s.window).1 s.env).Leaves s.env added) :
    s.Contained (s.take read lower).2 added :=
  ⟨h.scopes, h.structs, rfl, _, by simp [Session.take, Session.perform], h.labels⟩

/-- A phrase that takes only steps adds constants and variables and leaves the signatures alone. -/
theorem Modest.contained {τ α : Type} {P : α → Prop} {lower : τ → Lowering α}
    (h : ∀ tree, Modest P (lower tree)) (hlands : ∀ tree, Lands [] [] (lower tree)) {s : Session}
    (henv : s.env.Ready) (read : Window → τ × Window) :
    (s.take read lower).2.env.signatures = s.env.signatures ∧
    ∃ added, s.Contained (s.take read lower).2 added ∧ ∀ t ∈ added, t.kind.hasStorage = true := by
  obtain ⟨hsteps, -⟩ := h (read s.window).1 s.env henv
  obtain ⟨hsignatures, added, hadds, hstorage⟩ := hsteps.adds henv.ne_nil
  refine ⟨hsignatures, added, Outcome.Leaves.contained ⟨hadds, (hsteps.ready henv).structs, ?_⟩,
    hstorage⟩
  exact .of_landsIn (hlands _ _ (by simp))

/-- In a session with an open scope, whatever tokens are ahead, statements and declarations of
constants, variables and structs change nothing around them: they add constants and variables to the
innermost scope.  A declaration of a procedure adds one procedure. -/
theorem phrases_contained (s : Session) (hdepth : 1 ≤ s.scopes.depth)
    (hstructs : s.env.structs.IsStored) :
    (∀ s' ∈ [s.stmt, s.const, s.vars, s.struct], s'.env.signatures = s.env.signatures ∧
      ∃ added, s.Contained s' added ∧ ∀ t ∈ added, t.kind.hasStorage = true) ∧
    ∃ name, s.Contained s.procedure [⟨name, .procedure, .undefined, s.scopes.depth, none⟩] := by
  have henv : s.env.Ready := ⟨List.length_pos_iff.mp hdepth, hstructs⟩
  have hdeclaration := Modest.contained Declaration.lower_modest
    (fun d => d.lower_straight.lands []) henv
  refine ⟨?_, ?_⟩
  · simp only [List.forall_mem_cons, List.not_mem_nil, false_imp_iff, implies_true, and_true]
    exact ⟨Modest.contained Stmt.lower_modest Stmt.lower_lands henv _, hdeclaration _,
      hdeclaration _, hdeclaration _⟩
  · obtain ⟨name, hname⟩ := (s.window.readProcedure s.grammar s.steps).1.lower_leaves
    exact ⟨name, Outcome.Leaves.contained (hname s.env henv)⟩

/-- In the body of a procedure, in front of a block that declares a variable and a struct, uses a name
that is not declared, and does not end. -/
def insideProcedure : Session :=
  let token (kind : TokenKind) (value : String) : Token := ⟨kind, value, .start "", .start ""⟩
  let ahead := [token .openCurly "\x7b", token .kwInt "int", token .identifier "x",
    token .semicolon ";", token .kwStruct "struct", token .identifier "pair",
    token .openCurly "\x7b", token .closeCurly "\x7d", token .kwWhile "while",
    token .openParen "(", token .identifier "y", token .closeParen ")"]
  (Session.start .full (.ofTokens ahead "") 2).setScopes
    ((ScopeStack.empty.openScope.declareProcedure "p").2.enterProcedure "p").2

theorem phrases_contained_insideProcedure :
    1 ≤ insideProcedure.scopes.depth ∧ insideProcedure.env.structs.IsStored ∧
    (∀ s' ∈ [insideProcedure.stmt, insideProcedure.const, insideProcedure.vars,
        insideProcedure.struct], s'.env.signatures = insideProcedure.env.signatures ∧
      ∃ added, insideProcedure.Contained s' added ∧ ∀ t ∈ added, t.kind.hasStorage = true) ∧
    ∃ name, insideProcedure.Contained insideProcedure.procedure
      [⟨name, .procedure, .undefined, 2, none⟩] :=
  have hstructs : insideProcedure.env.structs.IsStored :=
    fun _ hd => absurd hd List.not_mem_nil
  ⟨by decide, hstructs, phrases_contained insideProcedure (by decide) hstructs⟩

end SlotLang
