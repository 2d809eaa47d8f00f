import SlotLang.Proofs.Outline

/-!
# What lowering tells of a tree

Lowering walks over the leaves of a tree and tells the reporter of each of them: that a token was
consumed, or that there is a fault of grammar in front of a token.  In between it adds faults of
meaning and warnings, which it places at the token consumed last.  It tells of nothing else, whatever
has been declared.  So everything that is heard can be read off the outline of the tree, up to the
faults of meaning.
-/

namespace SlotLang

open Lowering

/-- The rule refuses only for reasons of meaning. -/
def Semantic {α : Type} (rule : Except Fault α) : Prop :=
  ∀ fault, rule = .error fault → fault.category = .semanticFault

theorem Semantic.ok {α : Type} (a : α) : Semantic (.ok a) := by
  intro fault h
  contradiction

theorem Semantic.error {α : Type} {fault : Fault} (h : fault.category = .semanticFault) :
    Semantic (.error fault : Except Fault α) := by
  intro fault' heq
  cases heq
  exact h

theorem Semantic.ite {α : Type} {c : Prop} [Decidable c] {first second : Except Fault α}
    (h₁ : Semantic first) (h₂ : Semantic second) : Semantic (if c then first else second) := by
  split
  · exact h₁
  · exact h₂

namespace Typing

theorem require_semantic (c : Bool) {fault : Fault} (h : fault.category = .semanticFault) :
    Semantic (require c fault) :=
  .ite (.ok ()) (.error h)

theorem readable_semantic (target : Resolved) : Semantic (readable target) :=
  .ite (.error rfl) (require_semantic _ rfl)

theorem argumentTypes_semantic (name : String) (index : Nat) (params args : List Ty) :
    Semantic (argumentTypes name index params args) := by
  induction params generalizing index args with
  | nil => exact .ok ()
  | cons param params ih =>
    cases args with
    | nil => exact .ok ()
    | cons arg args => exact .ite (ih (index + 1) args) (.error rfl)

theorem arguments_semantic (signature : Signature) (args : List Ty) :
    Semantic (arguments signature args) :=
  .ite (argumentTypes_semantic _ _ _ _) (.error rfl)

end Typing

/-! ## Events and leaves -/

/-- The events tell of the leaves: they start behind the token `last` and end behind `final`. -/
inductive Tells : Token → List Leaf → List Event → Token → Prop where
  | done (last : Token) : Tells last [] [] last
  | token {last t final : Token} {leaves : List Leaf} {events : List Event} :
      Tells t leaves events final → Tells last (.token t :: leaves) (.consumed :: events) final
  | gap {last next final : Token} {fault : Fault} {leaves : List Leaf} {events : List Event} :
      fault.category = .syntaxFault → Tells last leaves events final →
        Tells last (.gap fault next :: leaves) (.fault ⟨fault, next.start⟩ :: events) final
  | meaning {last final : Token} {fault : Fault} {leaves : List Leaf} {events : List Event} :
      fault.category = .semanticFault → Tells last leaves events final →
        Tells last leaves (.fault ⟨fault, last.start⟩ :: events) final
  | warning {last final : Token} {message : String} {leaves : List Leaf} {events : List Event} :
      Tells last leaves events final →
        Tells last leaves (.warning message last.start :: events) final

namespace Tells

variable {last middle final : Token} {leaves leaves' : List Leaf} {events events' : List Event}

theorem append (h : Tells last leaves events middle) (h' : Tells middle leaves' events' final) :
    Tells last (leaves ++ leaves') (events ++ events') final := by
  induction h with
  | done last => exact h'
  | token _ ih => exact .token (ih h')
  | gap hfault _ ih => exact .gap hfault (ih h')
  | meaning hfault _ ih => exact .meaning hfault (ih h')
  | warning _ ih => exact .warning (ih h')

/-- Every token that was read is told of once. -/
theorem count_consumed (h : Tells last leaves events final) :
    events.count .consumed = (leaves.filterMap Leaf.token?).length := by
  induction h with
  | done last => rfl
  | token _ ih => simp [Leaf.token?, ih]
  | gap _ _ ih => simpa [Leaf.token?, List.count_cons, List.filterMap_cons] using ih
  | meaning _ _ ih => simpa [List.count_cons] using ih
  | warning _ ih => simpa [List.count_cons] using ih

/-- The scanner's kind of fault is never among what is told. -/
theorem category (h : Tells last leaves events final) {e : PlacedFault}
    (he : .fault e ∈ events) :
    e.fault.category = .syntaxFault ∨ e.fault.category = .semanticFault := by
  induction h with
  | done last => simp at he
  | token _ ih => exact ih (by simpa using he)
  | gap hfault _ ih =>
    rcases List.mem_cons.mp he with heq | he
    · cases heq
      exact .inl hfault
    · exact ih he
  | meaning hfault _ ih =>
    rcases List.mem_cons.mp he with heq | he
    · cases heq
      exact .inr hfault
    · exact ih he
  | warning _ ih => exact ih (by simpa using he)

end Tells

/-! ## Phrases -/

/-- Lowering tells of the leaves of the outline, whatever has been declared. -/
def Recounts {α : Type} (o : Outline) (x : Lowering α) : Prop :=
  ∀ env, Tells env.last o.leaves (x env).events (x env).env.last

namespace Recounts

variable {α β : Type} {o o' : Outline}

theorem pure (a : α) : Recounts .empty (Pure.pure a : Lowering α) := fun env => .done env.last

theorem bind {x : Lowering α} {f : α → Lowering β} (hx : Recounts o x)
    (hf : ∀ a, Recounts o' (f a)) : Recounts (o ++ o') (x >>= f) :=
  fun env => (hx env).append (hf _ _)

theorem silent_bind {x : Lowering α} {f : α → Lowering β} (hx : Recounts .empty x)
    (hf : ∀ a, Recounts o (f a)) : Recounts o (x >>= f) :=
  hx.bind hf

theorem bind_silent {x : Lowering α} {f : α → Lowering β} (hx : Recounts o x)
    (hf : ∀ a, Recounts .empty (f a)) : Recounts o (x >>= f) := by
  intro env
  have hbind := hx.bind hf env
  rw [Outline.leaves_append, Outline.leaves, List.append_nil] at hbind
  exact hbind

theorem discard {x : Lowering α} (hx : Recounts o x) : Recounts o (Functor.discard x) :=
  hx.bind_silent fun _ => .pure _

theorem env : Recounts .empty Lowering.env := fun env => .done env.last

theorem modifyEnv {f : Env → Env} (h : ∀ env, (f env).last = env.last) :
    Recounts .empty (Lowering.modifyEnv f) := by
  intro env
  simp only [Lowering.modifyEnv, h env]
  exact .done env.last

theorem withScopes (f : ScopeStack → α × ScopeStack) :
    Recounts .empty (Lowering.withScopes f) :=
  fun env => .done env.last

theorem freshLabel : Recounts .empty Lowering.freshLabel := fun env => .done env.last

theorem emitAll (code : List Instruction) : Recounts .empty (Lowering.emitAll code) :=
  fun env => .done env.last

theorem emit (op : Op) : Recounts .empty (Lowering.emit op) := .emitAll _

theorem land (label : Label) : Recounts .empty (Lowering.land label) := .emitAll _

theorem captured {x : Lowering α} (hx : Recounts o x) : Recounts o (Lowering.captured x) := hx

theorem consume (t : Token) : Recounts (.token t) (Lowering.consume t) :=
  fun _ => .token (.done t)

theorem warn (message : String) : Recounts .empty (Lowering.warn message) :=
  fun env => .warning (.done env.last)

theorem refuseBefore (next : Token) {fault : Fault} (h : fault.category = .syntaxFault) :
    Recounts (.gap fault next) (Lowering.refuseBefore next fault) :=
  fun env => .gap h (.done env.last)

theorem refuse {fault : Fault} (h : fault.category = .semanticFault) :
    Recounts .empty (Lowering.refuse fault) :=
  fun env => .meaning h (.done env.last)

theorem check {rule : Except Fault α} (h : Semantic rule) :
    Recounts .empty (Lowering.check rule) := by
  cases rule with
  | ok a => exact .pure ()
  | error fault => exact .refuse (h fault rfl)

theorem skip (production : String) (t : Token) :
    Recounts (skippedOutline production t) (Lowering.skip production t) :=
  .bind (.refuseBefore t rfl) fun _ => .consume t

theorem load (target : Resolved) : Recounts .empty (Lowering.load target) :=
  .silent_bind .env fun _ => .emit _

theorem store (target : Resolved) : Recounts .empty (Lowering.store target) :=
  .silent_bind .env fun _ => .emit _

theorem resolve (name : String) : Recounts .empty (Lowering.resolve name) := by
  refine .silent_bind .env fun env => ?_
  dsimp only
  split
  · exact .silent_bind (.refuse rfl) fun _ => .pure _
  · exact .pure _

/-- How the parts of an outline are grouped makes no difference. -/
theorem of_leaves {x : Lowering α} (h : Recounts o x) (heq : o.leaves = o'.leaves) :
    Recounts o' x := by
  intro env
  rw [← heq]
  exact h env

theorem round {body more : Outline} {x : Lowering α} (h : Recounts (body ++ more) x) :
    Recounts (.round body more) x := h

end Recounts

/-! ## Designators and expressions -/

theorem Terminal.lower_recounts (t : Terminal) : Recounts t.outline t.lower := by
  cases t with
  | read token => exact .consume token
  | missing kind next => exact .refuseBefore next rfl

theorem lowerIndices_recounts (indices : List Index) :
    Recounts (.loop Index.outline indices) (lowerIndices indices) := by
  induction indices with
  | nil => exact .pure ()
  | cons i indices ih =>
    have hindex : Recounts i.outline i.lower :=
      .bind (.consume _) fun _ => .bind i.number.lower_recounts fun _ => i.closing.lower_recounts
    exact .round (hindex.bind fun _ => ih)

theorem lowerMemberRefs_recounts (members : List MemberRef) :
    Recounts (.loop MemberRef.outline members) (lowerMemberRefs members) := by
  induction members with
  | nil => exact .pure ()
  | cons m members ih =>
    have hassoc : Recounts (.token m.dot ++ (m.name.outline ++ (.loop Index.outline m.indices ++
        .loop MemberRef.outline members))) (lowerMemberRefs (m :: members)) :=
      .bind (.consume _) fun _ => .bind m.name.lower_recounts fun _ =>
        .bind (lowerIndices_recounts m.indices) fun _ => ih
    exact hassoc.of_leaves (by simp [Outline.loop, MemberRef.outline, Outline.leaves])

theorem Designator.lower_recounts (d : Designator) : Recounts d.outline d.lower :=
  .bind d.head.lower_recounts fun _ => .bind (lowerIndices_recounts d.indices) fun _ =>
    .bind_silent (lowerMemberRefs_recounts d.members) fun _ => .pure _

theorem Designator.lowerTarget_recounts (d : Designator) : Recounts d.outline d.lowerTarget := by
  refine .bind_silent d.lower_recounts fun name => ?_
  cases name with
  | none => exact .pure none
  | some name => exact .resolve name

namespace Expr

theorem lowerNumber_recounts (t : Token) : Recounts (.token t) (lowerNumber t) := by
  refine .bind_silent (.consume _) fun _ => ?_
  cases Text.integer? t.value with
  | none => exact .silent_bind (.refuse rfl) fun _ => .silent_bind (.emit _) fun _ => .pure _
  | some value => exact .silent_bind (.emit _) fun _ => .pure _

theorem lowerDesignator_recounts (d : Designator) : Recounts d.outline (lowerDesignator d) := by
  refine .bind_silent d.lowerTarget_recounts fun found => ?_
  cases found with
  | none => exact .pure _
  | some target =>
    have hsemantic : Semantic (Typing.loadable target) := .ite (.ok _) (.error rfl)
    dsimp only
    cases hrule : Typing.loadable target with
    | ok ty => exact .silent_bind (.load target) fun _ => .pure _
    | error fault => exact .silent_bind (.refuse (hsemantic fault hrule)) fun _ => .pure _

theorem lowerRelational_recounts {right : Lowering Ty} {o : Outline} (h : Recounts o right)
    (left : Ty) (op : Token) : Recounts (.token op ++ o) (lowerRelational left op right) := by
  refine .bind (.consume _) fun _ => .bind_silent h fun rightTy => ?_
  have hsemantic : Semantic (Typing.relational left rightTy) := .ite (.ok _) (.error rfl)
  cases hrule : Typing.relational left rightTy with
  | ok ty => exact .silent_bind (.emit _) fun _ => .pure _
  | error fault => exact .silent_bind (.refuse (hsemantic fault hrule)) fun _ => .pure _

theorem lowerArithmetic_recounts {right : Lowering Ty} {o : Outline} (h : Recounts o right)
    (left : Ty) (op : Token) : Recounts (.token op ++ o) (lowerArithmetic left op right) :=
  .bind (.consume _) fun _ => .bind_silent h fun _ =>
    .silent_bind (.check (.ite (.ok _) (.error rfl))) fun _ => .silent_bind (.emit _) fun _ =>
    .pure _

/-- The last round of a chain of operators has nothing behind it. -/
theorem recounts_operation {left : Lowering Ty} {right : Ty → Lowering Ty} {o o' : Outline}
    (hleft : Recounts o left) (hright : ∀ ty, Recounts o' (right ty)) :
    Recounts (o ++ .round o' .empty) (left >>= right) := by
  refine hleft.bind fun ty => ?_
  intro env
  have htells := hright ty env
  rw [Outline.leaves, Outline.leaves, List.append_nil]
  exact htells

theorem lower_recounts (e : Expr) : Recounts e.outline e.lower := by
  induction e with
  | missing next => exact .bind_silent (.refuseBefore next rfl) fun _ => .pure _
  | number t => exact lowerNumber_recounts t
  | boolean t =>
    exact .bind_silent (.consume _) fun _ => .silent_bind (.emit _) fun _ => .pure _
  | designator d => exact lowerDesignator_recounts d
  | negation minus operand ih =>
    exact .bind (.consume _) fun _ => .bind_silent ih fun _ =>
      .silent_bind (.check (.ite (.ok _) (.error rfl))) fun _ => .silent_bind (.emit _) fun _ =>
      .silent_bind (.emit _) fun _ => .silent_bind (.emit _) fun _ => .pure _
  | grouping opening content closing ih =>
    exact .bind (.consume _) fun _ => .bind ih fun _ =>
      .bind_silent closing.lower_recounts fun _ => .pure _
  | relational left op right ihLeft ihRight =>
    exact recounts_operation ihLeft fun ty => lowerRelational_recounts ihRight ty op
  | arithmetic left op right ihLeft ihRight =>
    exact recounts_operation ihLeft fun ty => lowerArithmetic_recounts ihRight ty op

end Expr

namespace Separated

variable {α β : Type} {f : α → Lowering β} {item : α → Outline}

theorem lower_recounts (h : ∀ a, Recounts (item a) (f a)) (items : Separated α) :
    Recounts (items.outline item) (items.lower f) := by
  have hothers : ∀ others : List (Token × α),
      Recounts (.loop (fun other => .token other.1 ++ item other.2) others)
        (lower.lowerOthers f others) := by
    intro others
    induction others with
    | nil => exact .pure _
    | cons other others ih =>
      have hassoc : Recounts (.token other.1 ++ (item other.2 ++
          .loop (fun other => .token other.1 ++ item other.2) others))
          (lower.lowerOthers f (other :: others)) :=
        .bind (.consume other.1) fun _ => .bind (h other.2) fun _ =>
          .bind_silent ih fun _ => .pure _
      exact hassoc.of_leaves (by simp [Outline.loop, Outline.leaves])
  exact .bind (h items.first) fun _ => .bind_silent (hothers items.others) fun _ => .pure _

theorem lower?_recounts (h : ∀ a, Recounts (item a) (f a)) (items : Option (Separated α)) :
    Recounts (outline? item items) (lower? items f) := by
  cases items with
  | none => exact .pure _
  | some items => exact lower_recounts h items

end Separated

/-! ## Declarations -/

open Aggregate

theorem ScalarSpec.lower_recounts (s : ScalarSpec) : Recounts s.outline s.lower := by
  cases s with
  | read token => exact .bind_silent (.consume _) fun _ => .pure _
  | missing next => exact .bind_silent (.refuseBefore next rfl) fun _ => .pure _

theorem TypeSpec.lower_recounts (spec : TypeSpec) : Recounts spec.outline spec.lower := by
  cases spec with
  | scalar s => exact .bind_silent s.lower_recounts fun _ => .pure _
  | struct keyword name =>
    exact .bind (.consume _) fun _ => .bind_silent name.lower_recounts fun _ => .pure _

theorem lowerBounds_recounts (indices : List Index) :
    Recounts (.loop Index.outline indices) (lowerBounds indices) := by
  induction indices with
  | nil => exact .pure _
  | cons i indices ih =>
    have hrest : ∀ bound : List Nat, Recounts (i.closing.outline ++ .loop Index.outline indices) (do
        i.closing.lower
        let bounds ← lowerBounds indices
        return bound ++ bounds) :=
      fun bound => .bind i.closing.lower_recounts fun _ => .bind_silent ih fun _ => .pure _
    have hassoc : Recounts (.token i.opening ++ (i.number.outline ++ (i.closing.outline ++
        .loop Index.outline indices))) (lowerBounds (i :: indices)) := by
      refine .bind (.consume _) fun _ => .bind i.number.lower_recounts fun _ => ?_
      cases i.number with
      | missing kind next => exact .silent_bind (.pure _) hrest
      | read token =>
        dsimp only
        cases Text.word? token.value with
        | none => exact .silent_bind (.refuse rfl) fun _ => .silent_bind (.pure _) hrest
        | some n => exact .silent_bind (.pure _) hrest
    exact hassoc.of_leaves (by simp [Outline.loop, Index.outline, Outline.leaves])

theorem variableElements_recounts (name : String) (ty : DeclaredTy) (bounds : List Nat) :
    Recounts .empty (variableElements name ty bounds) := by
  have hregister : Recounts .empty (registerArray ⟨name, ty.elementTy, bounds.length⟩) := by
    refine .silent_bind .env fun env => ?_
    split
    · exact .silent_bind (.refuse rfl) fun _ => .modifyEnv fun _ => rfl
    · exact .modifyEnv fun _ => rfl
  unfold variableElements
  split
  · exact .pure _
  · refine .silent_bind hregister fun _ => ?_
    split
    · exact .pure _
    · exact .silent_bind (.refuse rfl) fun _ => .pure _

theorem declareVariable_recounts (name : String) (ty : DeclaredTy) (bounds : List Nat) :
    Recounts .empty (declareVariable name ty bounds) := by
  have hmembers : ∀ members, Recounts .empty (declareMembers members) :=
    fun _ => .modifyEnv fun _ => rfl
  refine .silent_bind (variableElements_recounts name ty bounds) fun found => ?_
  cases found with
  | none => exact .pure ()
  | some names =>
    cases ty with
    | scalar ty => exact hmembers _
    | struct structName =>
      refine .silent_bind .env fun env => ?_
      split
      · exact .refuse rfl
      · split
        · exact .refuse rfl
        · exact hmembers _

theorem Declarator.lower_recounts (ty : DeclaredTy) (d : Declarator) :
    Recounts d.outline (d.lower ty) := by
  refine .bind d.name.lower_recounts fun _ => .bind_silent (lowerBounds_recounts d.bounds) ?_
  intro bounds
  split
  · exact declareVariable_recounts _ ty bounds
  · exact .pure ()

theorem ConstEntry.lower_recounts (entry : ConstEntry) : Recounts entry.outline entry.lower := by
  refine .bind entry.ty.lower_recounts fun ty => .bind entry.name.lower_recounts fun _ => ?_
  cases entry.name.value? with
  | none => exact .pure ()
  | some name =>
    cases entry.value with
    | none => exact .pure ()
    | some value =>
      exact .silent_bind (.withScopes _) fun _ => .bind value.1.lower_recounts fun _ =>
        .bind_silent value.2.lower_recounts fun _ =>
        .silent_bind (.check (Typing.require_semantic _ rfl)) fun _ => .store _

theorem addMembers_recounts (d : StructDef) (name : String) (ty : DeclaredTy) (bounds : List Nat) :
    Recounts .empty (addMembers d name ty bounds) := by
  have hadd : ∀ width expand, Recounts .empty (addMembers.add d name bounds width expand) := by
    intro width expand
    unfold addMembers.add
    split
    · exact .silent_bind (.refuse rfl) fun _ => .pure _
    · split
      · exact .silent_bind (.refuse rfl) fun _ => .pure _
      · exact .pure _
  cases ty with
  | scalar ty => exact hadd _ _
  | struct structName =>
    refine .silent_bind .env fun env => ?_
    split
    · exact .silent_bind (.refuse rfl) fun _ => .pure _
    · exact hadd _ _

theorem lowerStructItems_recounts (items : List StructItem) (d : StructDef) :
    Recounts (.loop StructItem.outline items) (lowerStructItems d items) := by
  induction items generalizing d with
  | nil => exact .pure d
  | cons item items ih =>
    cases item with
    | skipped token => exact .round (.bind (.skip "Decl" token) fun _ => ih d)
    | member spec name bounds semicolon =>
      have hassoc : Recounts (spec.outline ++ (name.outline ++ (.loop Index.outline bounds ++
          (semicolon.outline ++ .loop StructItem.outline items))))
          (lowerStructItems d (.member spec name bounds semicolon :: items)) := by
        refine .bind spec.lower_recounts fun ty => .bind name.lower_recounts fun _ =>
          .bind (lowerBounds_recounts bounds) fun bounds =>
          .bind semicolon.lower_recounts fun _ => ?_
        split
        · exact .silent_bind (addMembers_recounts d _ ty bounds) ih
        · exact .silent_bind (.pure d) ih
      exact hassoc.of_leaves (by simp [Outline.loop, StructItem.outline, Outline.leaves])

theorem lowerStructDef_recounts (keyword : Token) (name opening : Terminal)
    (items : List StructItem) (closing semicolon : Terminal) :
    Recounts (Declaration.structDef keyword name opening items closing semicolon).outline
      (lowerStructDef keyword name opening items closing semicolon) := by
  have hrest : Recounts (opening.outline ++ (.loop StructItem.outline items ++
      (closing.outline ++ semicolon.outline))) (do
      opening.lower
      let d ← lowerStructItems (.new name.valueD) items
      closing.lower
      semicolon.lower
      modifyEnv fun env => { env with structs := env.structs.define d }) :=
    .bind opening.lower_recounts fun _ => .bind (lowerStructItems_recounts items _) fun _ =>
      .bind closing.lower_recounts fun _ => .bind_silent semicolon.lower_recounts fun _ =>
      .modifyEnv fun _ => rfl
  refine .bind (.consume _) fun _ => .bind name.lower_recounts fun _ =>
    .silent_bind .env fun env => ?_
  split
  · exact .silent_bind (.refuse rfl) fun _ => hrest
  · exact hrest

theorem Declaration.lower_recounts (d : Declaration) : Recounts d.outline d.lower := by
  cases d with
  | const keyword entries semicolon =>
    exact .bind (.consume _) fun _ =>
      .bind (.discard (Separated.lower_recounts ConstEntry.lower_recounts entries)) fun _ =>
        semicolon.lower_recounts
  | vars spec declarators semicolon =>
    exact .bind spec.lower_recounts fun ty =>
      .bind (.discard (Separated.lower_recounts (Declarator.lower_recounts ty) declarators))
        fun _ => semicolon.lower_recounts
  | structDef keyword name opening items closing semicolon =>
    exact lowerStructDef_recounts keyword name opening items closing semicolon

/-! ## Statements -/

theorem checkAssignable_recounts (target : Option Resolved) :
    Recounts .empty (checkAssignable target) := by
  cases target with
  | none => exact .pure ()
  | some target => exact .check (Typing.require_semantic _ rfl)

theorem storeChecked_recounts (target : Option Resolved) (ty : Ty) :
    Recounts .empty (storeChecked target ty) := by
  cases target with
  | none => exact .pure ()
  | some target =>
    exact .silent_bind (.check (Typing.require_semantic _ rfl)) fun _ => .store target

theorem lowerAssign_recounts (d : Designator) (becomes : Token) (value : Expr)
    (semicolon : Terminal) :
    Recounts (d.outline ++ (.token becomes ++ (value.outline ++ semicolon.outline)))
      (lowerAssign d becomes value semicolon) :=
  .bind d.lowerTarget_recounts fun target => .bind (.consume _) fun _ =>
    .silent_bind (checkAssignable_recounts target) fun _ => .bind value.lower_recounts fun ty =>
    .bind_silent semicolon.lower_recounts fun _ => storeChecked_recounts target ty

theorem lowerChoose_recounts (d : Designator) (becomes : Token) (guard : Expr) (question : Token)
    (first : Expr) (colon : Terminal) (second : Expr) (semicolon : Terminal) :
    Recounts (d.outline ++ (.token becomes ++ (guard.outline ++ (.token question ++
      (first.outline ++ (colon.outline ++ (second.outline ++ semicolon.outline)))))))
      (lowerChoose d becomes guard question first colon second semicolon) :=
  .bind d.lowerTarget_recounts fun target => .bind (.consume _) fun _ =>
    .silent_bind (checkAssignable_recounts target) fun _ => .bind guard.lower_recounts fun _ =>
    .bind (.consume _) fun _ => .silent_bind (.check (Typing.require_semantic _ rfl)) fun _ =>
    .silent_bind .freshLabel fun _ => .silent_bind (.emit _) fun _ =>
    .silent_bind .freshLabel fun _ => .bind first.lower_recounts fun firstTy =>
    .bind colon.lower_recounts fun _ => .silent_bind (storeChecked_recounts target firstTy) fun _ =>
    .silent_bind (.emit _) fun _ => .silent_bind (.land _) fun _ =>
    .bind second.lower_recounts fun secondTy => .bind_silent semicolon.lower_recounts fun _ =>
    .silent_bind (storeChecked_recounts target secondTy) fun _ => .land _

theorem emitCall_recounts (target : Resolved) (arguments : List Ty) :
    Recounts .empty (emitCall target arguments) := by
  have hsemantic : Semantic (Typing.callable target) := Typing.require_semantic _ rfl
  unfold emitCall
  split
  next fault hrule => exact .refuse (hsemantic fault hrule)
  next =>
    refine .silent_bind .env fun here => ?_
    dsimp only
    split
    · exact .silent_bind (.check (Typing.arguments_semantic _ _)) fun _ => .emit _
    · exact .emit _

theorem lowerCall_recounts (callee : Designator) (opening : Token)
    (arguments : Option (Separated Expr)) (closing semicolon : Terminal) :
    Recounts (callee.outline ++ (.token opening ++ (Separated.outline? Expr.outline arguments ++
      (closing.outline ++ semicolon.outline))))
      (lowerCall callee opening arguments closing semicolon) := by
  refine .bind callee.lowerTarget_recounts fun target => .bind (.consume _) fun _ =>
    .bind (Separated.lower?_recounts Expr.lower_recounts arguments) fun types =>
    .bind closing.lower_recounts fun _ => .bind_silent semicolon.lower_recounts fun _ => ?_
  cases target with
  | none => exact .pure ()
  | some target => exact emitCall_recounts target types

theorem lowerRead_recounts (keyword : Token) (d : Designator) (semicolon : Terminal) :
    Recounts (.token keyword ++ (d.outline ++ semicolon.outline))
      (lowerRead keyword d semicolon) := by
  refine .bind (.consume _) fun _ => .bind d.lowerTarget_recounts fun target =>
    .bind_silent semicolon.lower_recounts fun _ => ?_
  cases target with
  | none => exact .pure ()
  | some target =>
    exact .silent_bind (.check (Typing.readable_semantic target)) fun _ =>
      .silent_bind (.emit _) fun _ => .store target

theorem lowerWrite_recounts (keyword : Token) (operands : Separated Expr) (semicolon : Terminal) :
    Recounts (.token keyword ++ (operands.outline Expr.outline ++ semicolon.outline))
      (lowerWrite keyword operands semicolon) := by
  have hoperand : ∀ operand, Recounts operand.outline (lowerWriteOperand operand) :=
    fun operand => .bind_silent operand.lower_recounts fun _ =>
      .silent_bind (.check (Typing.require_semantic _ rfl)) fun _ => .emit _
  exact .bind (.consume _) fun _ =>
    .bind (.discard (Separated.lower_recounts hoperand operands)) fun _ => semicolon.lower_recounts

theorem Assignment.lower_recounts (a : Assignment) : Recounts a.outline a.lower := by
  cases a with
  | complete d becomes value =>
    exact .bind d.lowerTarget_recounts fun target => .bind (.consume _) fun _ =>
      .silent_bind (checkAssignable_recounts target) fun _ =>
      .bind_silent value.lower_recounts fun ty => storeChecked_recounts target ty
  | broken d next =>
    exact .bind (.discard d.lowerTarget_recounts) fun _ => .refuseBefore next rfl

theorem Condition.lower_recounts (c : Condition) : Recounts c.outline c.lower :=
  .bind c.opening.lower_recounts fun _ => .bind c.test.lower_recounts fun _ =>
    .bind_silent c.closing.lower_recounts fun _ => .check (Typing.require_semantic _ rfl)

theorem lowerFallback_recounts (fallback : Option (Token × Terminal)) :
    Recounts (fallbackOutline fallback) (lowerFallback fallback) := by
  cases fallback with
  | none => exact .pure ()
  | some pair => exact .bind (.consume _) fun _ => pair.2.lower_recounts

section

variable {body alternative : Lowering Unit} {o o' : Outline}

theorem lowerBranch_recounts (hbody : Recounts o body) (halternative : Recounts o' alternative)
    (keyword : Token) (condition : Condition) :
    Recounts (.token keyword ++ (condition.outline ++ (o ++ o')))
      (lowerBranch keyword condition body alternative) :=
  .bind (.consume _) fun _ => .bind condition.lower_recounts fun _ =>
    .silent_bind .freshLabel fun _ => .silent_bind (.emit _) fun _ => .bind hbody fun _ =>
    .silent_bind .freshLabel fun _ => .silent_bind (.emit _) fun _ =>
    .silent_bind (.land _) fun _ => .bind_silent halternative fun _ => .land _

theorem lowerWhile_recounts (hbody : Recounts o body) (keyword : Token) (condition : Condition) :
    Recounts (.token keyword ++ (condition.outline ++ o)) (lowerWhile keyword condition body) :=
  .bind (.consume _) fun _ => .silent_bind .freshLabel fun _ =>
    .silent_bind .freshLabel fun _ => .silent_bind (.land _) fun _ =>
    .bind condition.lower_recounts fun _ => .silent_bind (.emit _) fun _ =>
    .bind_silent hbody fun _ => .silent_bind (.emit _) fun _ => .land _

theorem lowerFor_recounts (hbody : Recounts o body) (keyword : Token) (opening : Terminal)
    (init : Assignment) (afterInit : Terminal) (test : Expr) (afterTest : Terminal)
    (step : Assignment) (closing : Terminal) :
    Recounts (.token keyword ++ (opening.outline ++ (init.outline ++ (afterInit.outline ++
      (test.outline ++ (afterTest.outline ++ (step.outline ++ (closing.outline ++ o))))))))
      (lowerFor keyword opening init afterInit test afterTest step closing body) :=
  .bind (.consume _) fun _ => .bind opening.lower_recounts fun _ =>
    .bind init.lower_recounts fun _ => .bind afterInit.lower_recounts fun _ =>
    .silent_bind .freshLabel fun _ => .silent_bind (.emit _) fun _ =>
    .silent_bind .freshLabel fun _ => .silent_bind .freshLabel fun _ =>
    .silent_bind (.land _) fun _ => .bind test.lower_recounts fun _ =>
    .bind afterTest.lower_recounts fun _ => .bind step.lower_recounts fun _ =>
    .bind closing.lower_recounts fun _ =>
    .silent_bind (.check (Typing.require_semantic _ rfl)) fun _ => .silent_bind (.emit _) fun _ =>
    .bind_silent hbody fun _ => .silent_bind (.land _) fun _ => .silent_bind (.emit _) fun _ =>
    .land _

theorem lowerCase_recounts (hbody : Recounts o body) (ty : Ty) (subject : List Instruction)
    (exit : Label) (keyword : Token) (label : Expr) (colon : Terminal) :
    Recounts (.token keyword ++ (label.outline ++ (colon.outline ++ o)))
      (lowerCase ty subject exit keyword label colon body) :=
  .bind (.consume _) fun _ => .silent_bind (.emitAll _) fun _ =>
    .bind label.lower_recounts fun _ => .bind colon.lower_recounts fun _ =>
    .silent_bind (.check (Typing.require_semantic _ rfl)) fun _ =>
    .silent_bind .freshLabel fun _ => .silent_bind (.emit _) fun _ =>
    .silent_bind (.emit _) fun _ => .bind_silent hbody fun _ => .silent_bind (.emit _) fun _ =>
    .land _

theorem lowerSwitch_recounts {cases : Ty → List Instruction → Label → Lowering Unit}
    (hcases : ∀ ty subject exit, Recounts o (cases ty subject exit))
    (hbody : Recounts o' body) (keyword : Token) (opening : Terminal) (subject : Expr)
    (closing brace : Terminal) (fallback : Option (Token × Terminal)) (closingBrace : Terminal) :
    Recounts (.token keyword ++ (opening.outline ++ (subject.outline ++ (closing.outline ++
      (brace.outline ++ (o ++ (fallbackOutline fallback ++ (o' ++ closingBrace.outline))))))))
      (lowerSwitch keyword opening subject closing brace cases fallback body closingBrace) :=
  .bind (.consume _) fun _ => .bind opening.lower_recounts fun _ =>
    .bind (.captured subject.lower_recounts) fun _ => .bind closing.lower_recounts fun _ =>
    .bind brace.lower_recounts fun _ => .silent_bind .freshLabel fun _ =>
    .bind (hcases _ _ _) fun _ => .bind (lowerFallback_recounts fallback) fun _ =>
    .bind hbody fun _ => .bind_silent closingBrace.lower_recounts fun _ => .land _

end

mutual

theorem Stmt.lower_recounts : ∀ s : Stmt, Recounts s.outline s.lower
  | .missing next => .refuseBefore next rfl
  | .broken target => .discard target.lower_recounts
  | .dangling target next =>
      .bind (.discard target.lowerTarget_recounts) fun _ => .refuseBefore next rfl
  | .assign target becomes value semicolon => lowerAssign_recounts target becomes value semicolon
  | .choose target becomes guard question first colon second semicolon =>
      lowerChoose_recounts target becomes guard question first colon second semicolon
  | .call callee opening arguments closing semicolon =>
      lowerCall_recounts callee opening arguments closing semicolon
  | .branch keyword condition body =>
      (lowerBranch_recounts body.lower_recounts (.pure ()) keyword condition).of_leaves
        (by simp [Stmt.outline, Outline.leaves])
  | .branchElse keyword condition body otherwise alternative =>
      lowerBranch_recounts body.lower_recounts
        (.bind (.consume otherwise) fun _ => alternative.lower_recounts) keyword condition
  | .whileLoop keyword condition body => lowerWhile_recounts body.lower_recounts keyword condition
  | .forLoop keyword opening init afterInit test afterTest step closing body =>
      lowerFor_recounts body.lower_recounts keyword opening init afterInit test afterTest step
        closing
  | .switch keyword opening subject closing brace cases fallback fallbackBody closingBrace =>
      lowerSwitch_recounts (lowerCases_recounts cases) (lowerStmts_recounts fallbackBody) keyword
        opening subject closing brace fallback closingBrace
  | .read keyword target semicolon => lowerRead_recounts keyword target semicolon
  | .write keyword operands semicolon => lowerWrite_recounts keyword operands semicolon
  | .block opening items closing =>
      .bind (.consume opening) fun _ => .bind (lowerBlockItems_recounts items) fun _ =>
        closing.lower_recounts

theorem lowerStmts_recounts : ∀ stmts : List Stmt, Recounts (stmtsOutline stmts) (lowerStmts stmts)
  | [] => .pure ()
  | s :: more => .round (.bind s.lower_recounts fun _ => lowerStmts_recounts more)

theorem lowerCases_recounts : ∀ (cases : List Case) (ty : Ty) (subject : List Instruction)
    (exit : Label), Recounts (casesOutline cases) (lowerCases ty subject exit cases)
  | [], _, _, _ => .pure ()
  | .mk keyword label colon body :: more, ty, subject, exit =>
      .round (.bind
        (lowerCase_recounts (lowerStmts_recounts body) ty subject exit keyword label colon)
        fun _ => lowerCases_recounts more ty subject exit)

theorem lowerBlockItems_recounts : ∀ items : List BlockItem,
    Recounts (blockOutline items) (lowerBlockItems items)
  | [] => .pure ()
  | item :: more => .round (.bind item.lower_recounts fun _ => lowerBlockItems_recounts more)

theorem BlockItem.lower_recounts : ∀ item : BlockItem, Recounts item.outline item.lower
  | .declaration d => d.lower_recounts
  | .statement s => s.lower_recounts
  | .skipped token => .skip "Stat" token

end

/-! ## Procedures and programs -/

theorem Param.lower_recounts (p : Param) : Recounts p.outline p.lower := by
  refine .bind p.ty.lower_recounts fun ty => .bind_silent p.name.lower_recounts fun _ => ?_
  split
  · exact .silent_bind (.discard (.withScopes _)) fun _ => .pure ty
  · exact .pure ty

theorem openProcedure_recounts (keyword : Token) (name : Terminal) :
    Recounts (.token keyword ++ name.outline) (openProcedure keyword name) :=
  .bind (.consume _) fun _ => .bind_silent name.lower_recounts fun _ =>
    .silent_bind (.discard (.withScopes _)) fun _ => .withScopes _

theorem lowerProcedure_recounts {body : Lowering Unit} {o : Outline} (hbody : Recounts o body)
    (keyword : Token) (name opening : Terminal) (params : Option (Separated Param))
    (closing brace closingBrace : Terminal) :
    Recounts (.token keyword ++ (name.outline ++ (opening.outline ++
      (Separated.outline? Param.outline params ++ (closing.outline ++ (brace.outline ++
        (o ++ closingBrace.outline)))))))
      (lowerProcedure keyword name opening params closing brace body closingBrace) := by
  have hinside : ∀ label, Recounts (opening.outline ++ (Separated.outline? Param.outline params ++
      (closing.outline ++ (brace.outline ++ (o ++ closingBrace.outline)))))
      (lowerProcedureBody label name opening params closing brace body closingBrace) :=
    fun label => .bind opening.lower_recounts fun _ =>
      .bind (Separated.lower?_recounts Param.lower_recounts params) fun _ =>
      .bind closing.lower_recounts fun _ => .silent_bind (.modifyEnv fun _ => rfl) fun _ =>
      .silent_bind (.emitAll _) fun _ => .bind brace.lower_recounts fun _ => .bind hbody fun _ =>
      closingBrace.lower_recounts
  have hclose : Recounts .empty closeProcedure := .silent_bind (.withScopes _) fun _ => .pure _
  have hprocedure := Recounts.bind (openProcedure_recounts keyword name) fun label =>
    .bind_silent (.captured (hinside label)) fun code => .silent_bind hclose fun frame =>
    .silent_bind (.emitAll [.labelled (.named label) (.enter frame)]) fun _ =>
    .silent_bind (.emitAll code.2) fun _ => .silent_bind (.emit .leave) fun _ => .emit .ret
  exact hprocedure.of_leaves (by simp)

mutual

theorem Procedure.lower_recounts : ∀ p : Procedure, Recounts p.outline p.lower
  | .mk keyword name opening params closing brace body closingBrace =>
      lowerProcedure_recounts (lowerBodyItems_recounts body) keyword name opening params closing
        brace closingBrace

theorem lowerBodyItems_recounts : ∀ items : List BodyItem,
    Recounts (bodyOutline items) (lowerBodyItems items)
  | [] => .pure ()
  | item :: more => .round (.bind item.lower_recounts fun _ => lowerBodyItems_recounts more)

theorem BodyItem.lower_recounts : ∀ item : BodyItem, Recounts item.outline item.lower
  | .declaration d => d.lower_recounts
  | .statement s => s.lower_recounts
  | .nested p =>
      .silent_bind .freshLabel fun _ => .silent_bind (.emit _) fun _ =>
        .bind_silent p.lower_recounts fun _ => .land _
  | .skipped token => .skip "Stat" token

end

theorem declareExternal_recounts (name : Terminal) (kind : SymbolKind) (ty : Ty) :
    Recounts .empty (declareExternal name kind ty) := by
  unfold declareExternal
  split
  · exact .discard (.withScopes _)
  · exact .pure ()

theorem lowerExternalParams_recounts (name : Terminal) (params : Option ExternalParams) :
    Recounts (externalParamsOutline params) (lowerExternalParams name params) := by
  cases params with
  | none => exact .pure ()
  | some params =>
    exact .bind (.consume _) fun _ =>
      .bind (Separated.lower?_recounts ScalarSpec.lower_recounts _) fun _ =>
      .bind_silent params.closing.lower_recounts fun _ => .modifyEnv fun _ => rfl

theorem External.lower_recounts (e : External) : Recounts e.outline e.lower := by
  cases e with
  | vars keyword spec names semicolon =>
    have hname : ∀ ty, ∀ name : Terminal, Recounts name.outline (do
        name.lower
        declareExternal name .var ty) :=
      fun ty name => .bind_silent name.lower_recounts fun _ => declareExternal_recounts name .var ty
    exact .bind (.consume _) fun _ => .bind spec.lower_recounts fun ty =>
      .bind (.discard (Separated.lower_recounts (hname ty) names)) fun _ => semicolon.lower_recounts
  | const keyword constant spec name semicolon =>
    exact .bind (.consume _) fun _ => .bind (.consume _) fun _ =>
      .bind spec.lower_recounts fun ty => .bind name.lower_recounts fun _ =>
      .silent_bind (declareExternal_recounts name .const ty) fun _ => semicolon.lower_recounts
  | procedure keyword mark name params semicolon =>
    exact .bind (.consume _) fun _ => .bind (.consume _) fun _ =>
      .bind name.lower_recounts fun _ =>
      .silent_bind (declareExternal_recounts name .procedure .undefined) fun _ =>
      .bind (lowerExternalParams_recounts name params) fun _ => semicolon.lower_recounts
  | missing keyword next =>
    exact .bind (.consume _) fun _ => .refuseBefore next rfl

theorem ProgramItem.lower_recounts (item : ProgramItem) : Recounts item.outline item.lower := by
  cases item with
  | declaration d => exact d.lower_recounts
  | procedure p => exact p.lower_recounts
  | external e => exact e.lower_recounts
  | skipped token => exact .skip "Decl" token

theorem lowerProgramItems_recounts (items : List ProgramItem) :
    Recounts (.loop ProgramItem.outline items) (lowerProgramItems items) := by
  induction items with
  | nil => exact .pure ()
  | cons item more ih => exact .round (.bind item.lower_recounts fun _ => ih)

/-- What is heard of a program are the leaves of its tree, with faults of meaning in between. -/
theorem Program.lower_recounts (p : Program) : Recounts p.outline p.lower := by
  refine .bind p.keyword.lower_recounts fun _ => .bind p.name.lower_recounts fun _ =>
    .bind p.opening.lower_recounts fun _ => .silent_bind (.modifyEnv fun _ => rfl) fun _ =>
    .bind (lowerProgramItems_recounts p.items) fun _ => .bind p.closing.lower_recounts fun _ =>
    .silent_bind .env fun env => ?_
  split
  · exact .silent_bind (.warn _) fun _ => p.ending.lower_recounts
  · exact p.ending.lower_recounts

end SlotLang
