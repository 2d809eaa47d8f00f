import SlotLang.Proofs.Addressing
import SlotLang.Proofs.Sizes

/-!
# Accesses to storage

Whether a text has errors or not, an instruction that accesses storage was emitted for a name, in the
scopes of its place.  Most phrases declare nothing, and for those there is little to say: they leave
the scopes and the structs alone, and the instructions of theirs that access storage are told by the
names that they refer to, in order.
-/

namespace SlotLang

open Lowering Aggregate

/-- What an instruction has to do with names: it enters a procedure, accesses storage, or declares
something. -/
inductive Mark where
  | entry (label : Option Label)
  | access (i : Instruction)
  | directive (d : Directive)
  deriving DecidableEq, Repr

def Instruction.mark? (i : Instruction) : Option Mark :=
  match i.op with
  | .enter _ => some (.entry i.label)
  | .directive d => some (.directive d)
  | op => if op.cell?.isSome then some (.access i) else none

def marks (code : List Instruction) : List Mark := code.filterMap Instruction.mark?

@[simp] theorem marks_nil : marks [] = [] := rfl

@[simp] theorem marks_append (first second : List Instruction) :
    marks (first ++ second) = marks first ++ marks second :=
  List.filterMap_append

/-- An access to storage: a name is loaded or stored into, or an argument of a call is stored. -/
inductive Access where
  | load (u : Use)
  | store (u : Use)
  | argument (k : Nat)

namespace Access

def emitted : Access → Emitted
  | load u => .load u
  | store u => .store u
  | argument k => .argument k

def instruction (a : Access) : Instruction := a.emitted.instruction

def mark (a : Access) : Mark := .access a.instruction

theorem mark?_instruction (a : Access) : a.instruction.mark? = some a.mark := by
  have hcell (op : Op) (h : op.cell?.isSome = true) :
      (Instruction.plain op).mark? = some (.access (.plain op)) := by
    cases op <;> first | rfl | cases h
  cases a with
  | load u => exact hcell u.cell.loadOp (by simp)
  | store u => exact hcell u.cell.storeOp (by simp)
  | argument k => rfl

theorem marks_instructions (accesses : List Access) :
    marks (accesses.map instruction) = accesses.map mark := by
  simp [marks, mark?_instruction]

end Access

/-- A name whose value is wanted, or one that a value is stored into. -/
inductive Reference where
  | load (name : String)
  | store (name : String)
  deriving DecidableEq, Repr

/-- The accesses that a reference makes where these scopes are open.  Only a symbol with storage is
loaded; a value is stored whatever the symbol is. -/
def Reference.accesses (st : ScopeStack) : Reference → List Access
  | load name =>
      match st.resolve name with
      | some target => if target.symbol.kind.hasStorage then [.load ⟨name, st⟩] else []
      | none => []
  | store name => if (st.resolve name).isSome then [.store ⟨name, st⟩] else []

def accessesAt (st : ScopeStack) (references : List Reference) : List Access :=
  references.flatMap (Reference.accesses st)

@[simp] theorem accessesAt_nil (st : ScopeStack) : accessesAt st [] = [] := rfl

@[simp] theorem accessesAt_append (st : ScopeStack) (first second : List Reference) :
    accessesAt st (first ++ second) = accessesAt st first ++ accessesAt st second :=
  List.flatMap_append

/-! ## Phrases that declare nothing -/

/-- The phrase has declared nothing, and it has made these references. -/
structure Outcome.Still {α : Type} (env : Env) (references : List Reference) (o : Outcome α) :
    Prop where
  scopes : o.env.scopes = env.scopes
  structs : o.env.structs = env.structs
  marks : marks o.code = (accessesAt env.scopes references).map Access.mark

theorem Outcome.Still.bind {α β : Type} {env : Env} {first second : List Reference} {x : Lowering α}
    {f : α → Lowering β} (hx : (x env).Still env first)
    (hf : (f (x env).value (x env).env).Still (x env).env second) :
    ((x >>= f) env).Still env (first ++ second) where
  scopes := hf.scopes.trans hx.scopes
  structs := hf.structs.trans hx.structs
  marks := by
    rw [bind_apply, marks_append, hx.marks, hf.marks, hx.scopes, accessesAt_append, List.map_append]

/-- Wherever these scopes are open, the phrase declares nothing and makes these references. -/
def StillAt {α : Type} (st : ScopeStack) (x : Lowering α) (references : List Reference) : Prop :=
  ∀ env : Env, env.scopes = st → (x env).Still env references

namespace StillAt

variable {α β : Type} {st : ScopeStack} {first second : List Reference} {x : Lowering α}
  {f : α → Lowering β}

theorem bind (hx : StillAt st x first) (hf : ∀ a, StillAt st (f a) second) :
    StillAt st (x >>= f) (first ++ second) :=
  fun env henv => (hx env henv).bind (hf _ _ ((hx env henv).scopes.trans henv))

/-- A phrase without references in front of another one. -/
theorem silently (hx : StillAt st x []) (hf : ∀ a, StillAt st (f a) second) :
    StillAt st (x >>= f) second :=
  hx.bind hf

/-- A phrase without references behind another one. -/
theorem andThen (hx : StillAt st x first) (hf : ∀ a, StillAt st (f a) []) :
    StillAt st (x >>= f) first := by
  simpa using hx.bind hf

theorem discard (hx : StillAt st x first) : StillAt st (Functor.discard x) first :=
  hx.andThen fun _ _ _ => ⟨rfl, rfl, rfl⟩

theorem pure (a : α) : StillAt st (Pure.pure a : Lowering α) [] := fun _ _ => ⟨rfl, rfl, rfl⟩

theorem env : StillAt st Lowering.env [] := fun _ _ => ⟨rfl, rfl, rfl⟩

theorem freshLabel : StillAt st Lowering.freshLabel [] := fun _ _ => ⟨rfl, rfl, rfl⟩

theorem emit {op : Op} (h : (Instruction.plain op).mark? = none) :
    StillAt st (Lowering.emit op) [] :=
  fun _ _ => ⟨rfl, rfl, by simp [Lowering.emit, Lowering.emitAll, SlotLang.marks, h]⟩

theorem land (label : Label) : StillAt st (Lowering.land label) [] := fun _ _ => ⟨rfl, rfl, rfl⟩

theorem consume (token : Token) : StillAt st (Lowering.consume token) [] :=
  fun _ _ => ⟨rfl, rfl, rfl⟩

theorem refuseBefore (next : Token) (fault : Fault) :
    StillAt st (Lowering.refuseBefore next fault) [] := fun _ _ => ⟨rfl, rfl, rfl⟩

theorem refuse (fault : Fault) : StillAt st (Lowering.refuse fault) [] :=
  fun _ _ => ⟨rfl, rfl, rfl⟩

theorem warn (message : String) : StillAt st (Lowering.warn message) [] :=
  fun _ _ => ⟨rfl, rfl, rfl⟩

theorem skip (production : String) (token : Token) :
    StillAt st (Lowering.skip production token) [] :=
  .silently (.refuseBefore _ _) fun _ => .consume _

theorem check (rule : Except Fault α) : StillAt st (Lowering.check rule) [] := by
  cases rule with
  | ok a => exact .pure ()
  | error fault => exact .refuse fault

theorem terminal (t : Terminal) : StillAt st t.lower [] := by
  cases t with
  | read token => exact .consume token
  | missing kind next => exact .refuseBefore _ _

theorem resolve (name : String) : StillAt st (Lowering.resolve name) [] := by
  refine .silently .env fun env => ?_
  dsimp only
  split
  · exact .silently (.refuse _) fun _ => .pure _
  · exact .pure _

variable {name : String} {target : Resolved}

theorem load (h : st.resolve name = some target) (hstorage : target.symbol.kind.hasStorage = true) :
    StillAt st (Lowering.load target) [.load name] := by
  rintro env rfl
  have hcode : (Lowering.load target env).code = [(Access.load ⟨name, env.scopes⟩).instruction] :=
    congrArg ([·]) (Emitted.load_instruction (u := ⟨name, env.scopes⟩) h).symm
  refine ⟨rfl, rfl, ?_⟩
  rw [hcode]
  simpa [accessesAt, Reference.accesses, h, hstorage] using Access.marks_instructions [_]

theorem store (h : st.resolve name = some target) :
    StillAt st (Lowering.store target) [.store name] := by
  rintro env rfl
  have hcode : (Lowering.store target env).code = [(Access.store ⟨name, env.scopes⟩).instruction] :=
    congrArg ([·]) (Emitted.store_instruction (u := ⟨name, env.scopes⟩) h).symm
  refine ⟨rfl, rfl, ?_⟩
  rw [hcode]
  simpa [accessesAt, Reference.accesses, h] using Access.marks_instructions [_]

end StillAt

/-! ## Designators and expressions -/

theorem Index.lower_still (st : ScopeStack) (i : Index) : StillAt st i.lower [] :=
  .silently (.consume _) fun _ => .silently (.terminal _) fun _ => .terminal _

theorem lowerIndices_still (st : ScopeStack) (indices : List Index) :
    StillAt st (lowerIndices indices) [] := by
  induction indices with
  | nil => exact .pure ()
  | cons i indices ih => exact .silently (i.lower_still st) fun _ => ih

theorem lowerMemberRefs_still (st : ScopeStack) (members : List MemberRef) :
    StillAt st (lowerMemberRefs members) [] := by
  induction members with
  | nil => exact .pure ()
  | cons m members ih =>
    exact .silently (.consume _) fun _ => .silently (.terminal _) fun _ =>
      .silently (lowerIndices_still st _) fun _ => ih

namespace Designator

/-- What the designator denotes. -/
def target? (d : Designator) (st : ScopeStack) : Option Resolved := d.name?.bind st.resolve

def loads (d : Designator) : List Reference := d.name?.toList.map .load

def stores (d : Designator) : List Reference := d.name?.toList.map .store

theorem lower_still (st : ScopeStack) (d : Designator) : StillAt st d.lower [] :=
  .silently (.terminal _) fun _ => .silently (lowerIndices_still st _) fun _ =>
    .silently (lowerMemberRefs_still st _) fun _ => .pure _

theorem lowerTarget_still (st : ScopeStack) (d : Designator) : StillAt st d.lowerTarget [] := by
  refine .silently (d.lower_still st) fun name => ?_
  cases name with
  | none => exact .pure none
  | some name => exact .resolve name

theorem lowerTarget_value (d : Designator) (env : Env) :
    (d.lowerTarget env).value = d.target? env.scopes := by
  have hscopes : (d.lower env).env.scopes = env.scopes := (d.lower_still env.scopes env rfl).scopes
  have hname : (d.lower env).value = d.name? := rfl
  unfold target? lowerTarget
  rw [bind_apply, hname]
  cases d.name? with
  | none => rfl
  | some name =>
    simp only [Lowering.resolve, bind_apply, Lowering.env, hscopes, Option.bind_some]
    split <;> rfl

/-- What follows a designator need be considered only for what the designator denotes. -/
theorem resolved_still {α : Type} {st : ScopeStack} {d : Designator}
    {f : Option Resolved → Lowering α} {references : List Reference}
    (hf : StillAt st (f (d.target? st)) references) : StillAt st (d.lowerTarget >>= f) references := by
  rintro env rfl
  have htarget := d.lowerTarget_still env.scopes env rfl
  exact htarget.bind (d.lowerTarget_value env ▸ hf _ htarget.scopes)

end Designator

namespace Expr

/-- The names that an expression refers to, in the order of its code. -/
def references : Expr → List Reference
  | missing _ | number _ | boolean _ => []
  | designator d => d.loads
  | negation _ operand => operand.references
  | grouping _ content _ => content.references
  | relational left _ right | arithmetic left _ right => left.references ++ right.references

variable {st : ScopeStack} {x : Lowering Ty} {referred : List Reference}

theorem lowerNumber_still (token : Token) : StillAt st (lowerNumber token) [] := by
  refine .silently (.consume _) fun _ => ?_
  cases Text.integer? token.value with
  | none => exact .silently (.refuse _) fun _ => .silently (.emit rfl) fun _ => .pure _
  | some value => exact .silently (.emit rfl) fun _ => .pure _

theorem lowerDesignator_still (d : Designator) : StillAt st (lowerDesignator d) d.loads := by
  refine Designator.resolved_still ?_
  unfold Designator.target? Designator.loads
  cases d.name? with
  | none => exact .pure _
  | some name =>
    rw [Option.bind_some]
    cases hfound : st.resolve name with
    | none => exact fun _ henv => ⟨rfl, rfl, by simp [accessesAt, Reference.accesses, henv, hfound]⟩
    | some target =>
      simp only [Typing.loadable]
      by_cases hstorage : target.symbol.kind.hasStorage = true
      · simp only [hstorage, if_true]
        exact (StillAt.load hfound hstorage).andThen fun _ => .pure _
      · simp only [hstorage]
        exact fun _ henv =>
          ⟨rfl, rfl, by simp [accessesAt, Reference.accesses, henv, hfound, hstorage, refuse]⟩

theorem lowerRelational_still (h : StillAt st x referred) (left : Ty) (op : Token) :
    StillAt st (lowerRelational left op x) referred := by
  refine .silently (.consume _) fun _ => h.andThen fun right => ?_
  cases Typing.relational left right with
  | ok ty => exact .silently (.emit rfl) fun _ => .pure _
  | error fault => exact .silently (.refuse _) fun _ => .pure _

theorem lowerArithmetic_still (h : StillAt st x referred) (left : Ty) (op : Token) :
    StillAt st (lowerArithmetic left op x) referred :=
  .silently (.consume _) fun _ => h.andThen fun _ =>
    .silently (.check _) fun _ => .silently (.emit rfl) fun _ => .pure _

theorem lower_still (st : ScopeStack) (e : Expr) : StillAt st e.lower e.references := by
  induction e with
  | missing next => exact .silently (.refuseBefore _ _) fun _ => .pure _
  | number token => exact lowerNumber_still token
  | boolean token => exact .silently (.consume _) fun _ => .silently (.emit rfl) fun _ => .pure _
  | designator d => exact lowerDesignator_still d
  | negation minus operand ih =>
    exact .silently (.consume _) fun _ => ih.andThen fun _ => .silently (.check _) fun _ =>
      .silently (.emit rfl) fun _ => .silently (.emit rfl) fun _ => .silently (.emit rfl) fun _ =>
        .pure _
  | grouping opening content closing ih =>
    exact .silently (.consume _) fun _ => ih.andThen fun _ => .silently (.terminal _) fun _ => .pure _
  | relational left op right ihl ihr =>
    exact ihl.bind fun ty => lowerRelational_still ihr ty op
  | arithmetic left op right ihl ihr =>
    exact ihl.bind fun ty => lowerArithmetic_still ihr ty op

end Expr

namespace Separated

variable {α β : Type} {st : ScopeStack} {f : α → Lowering β} {g : α → List Reference}

theorem lower_still (h : ∀ a, StillAt st (f a) (g a)) (items : Separated α) :
    StillAt st (items.lower f) (items.toList.flatMap g) := by
  have hothers : ∀ others : List (Token × α),
      StillAt st (lower.lowerOthers f others) ((others.map (·.2)).flatMap g) := by
    intro others
    induction others with
    | nil => exact .pure _
    | cons item others ih =>
      exact .silently (.consume _) fun _ => (h item.2).bind fun _ => ih.andThen fun _ => .pure _
  exact (h items.first).bind fun _ => (hothers items.others).andThen fun _ => .pure _

theorem lower?_still (h : ∀ a, StillAt st (f a) (g a)) (items : Option (Separated α)) :
    StillAt st (lower? items f) ((toList? items).flatMap g) := by
  cases items with
  | none => exact .pure _
  | some items => exact lower_still h items

end Separated

/-! ## Statements without statements inside -/

section

variable (st : ScopeStack)

theorem checkAssignable_still (target : Option Resolved) :
    StillAt st (checkAssignable target) [] := by
  cases target with
  | none => exact .pure ()
  | some target => exact .check _

theorem Designator.store_still (d : Designator) {store : Resolved → Lowering Unit}
    (h : ∀ {name target}, st.resolve name = some target → StillAt st (store target) [.store name]) :
    StillAt st (match d.target? st with | none => Pure.pure () | some target => store target)
      d.stores := by
  unfold target? stores
  cases d.name? with
  | none => exact .pure ()
  | some name =>
    rw [Option.bind_some]
    cases hfound : st.resolve name with
    | none => exact fun _ henv => ⟨rfl, rfl, by simp [accessesAt, Reference.accesses, henv, hfound]⟩
    | some target => exact h hfound

theorem storeChecked_still (d : Designator) (ty : Ty) :
    StillAt st (storeChecked (d.target? st) ty) d.stores :=
  d.store_still st fun h => .silently (.check _) fun _ => .store h

theorem lowerAssign_still (d : Designator) (becomes : Token) (value : Expr) (semicolon : Terminal) :
    StillAt st (lowerAssign d becomes value semicolon) (value.references ++ d.stores) :=
  Designator.resolved_still <| .silently (.consume _) fun _ =>
    .silently (checkAssignable_still st _) fun _ => (value.lower_still st).bind fun _ =>
      .silently (.terminal _) fun _ => storeChecked_still st d _

theorem lowerChoose_still (d : Designator) (becomes : Token) (guard : Expr) (question : Token)
    (first : Expr) (colon : Terminal) (second : Expr) (semicolon : Terminal) :
    StillAt st (lowerChoose d becomes guard question first colon second semicolon)
      (guard.references ++ (first.references ++ (d.stores ++ (second.references ++ d.stores)))) :=
  Designator.resolved_still <| .silently (.consume _) fun _ =>
    .silently (checkAssignable_still st _) fun _ => (guard.lower_still st).bind fun _ =>
      .silently (.consume _) fun _ => .silently (.check _) fun _ => .silently .freshLabel fun _ =>
        .silently (.emit rfl) fun _ => .silently .freshLabel fun _ =>
          (first.lower_still st).bind fun _ => .silently (.terminal _) fun _ =>
            (storeChecked_still st d _).bind fun _ => .silently (.emit rfl) fun _ =>
              .silently (.land _) fun _ => (second.lower_still st).bind fun _ =>
                .silently (.terminal _) fun _ => (storeChecked_still st d _).andThen fun _ => .land _

theorem emitCall_still (target : Resolved) (arguments : List Ty) :
    StillAt st (emitCall target arguments) [] := by
  unfold emitCall
  split
  · exact .refuse _
  · refine .silently .env fun here => ?_
    dsimp only
    split
    · exact .silently (.check _) fun _ => .emit rfl
    · exact .silently (.pure _) fun _ => .emit rfl

theorem lowerCall_still (callee : Designator) (opening : Token)
    (arguments : Option (Separated Expr)) (closing semicolon : Terminal) :
    StillAt st (lowerCall callee opening arguments closing semicolon)
      ((Separated.toList? arguments).flatMap Expr.references) := by
  refine .silently (callee.lowerTarget_still st) fun target => .silently (.consume _) fun _ =>
    (Separated.lower?_still (Expr.lower_still st) arguments).andThen fun types =>
      .silently (.terminal _) fun _ => .silently (.terminal _) fun _ => ?_
  cases target with
  | none => exact .pure ()
  | some target => exact emitCall_still st target types

theorem lowerRead_still (keyword : Token) (d : Designator) (semicolon : Terminal) :
    StillAt st (lowerRead keyword d semicolon) d.stores :=
  .silently (.consume _) fun _ => Designator.resolved_still <| .silently (.terminal _) fun _ =>
    d.store_still st fun h => .silently (.check _) fun _ => .silently (.emit rfl) fun _ => .store h

theorem lowerWrite_still (keyword : Token) (operands : Separated Expr) (semicolon : Terminal) :
    StillAt st (lowerWrite keyword operands semicolon)
      (operands.toList.flatMap Expr.references) := by
  have hoperand (operand : Expr) : StillAt st (lowerWriteOperand operand) operand.references :=
    (operand.lower_still st).andThen fun _ => .silently (.check _) fun _ => .emit rfl
  exact .silently (.consume _) fun _ =>
    (Separated.lower_still hoperand operands).discard.andThen fun _ => .terminal _

end

def Assignment.references : Assignment → List Reference
  | complete target _ value => value.references ++ target.stores
  | broken _ _ => []

theorem Assignment.lower_still (st : ScopeStack) (a : Assignment) :
    StillAt st a.lower a.references := by
  cases a with
  | complete d becomes value =>
    exact Designator.resolved_still <| .silently (.consume _) fun _ =>
      .silently (checkAssignable_still st _) fun _ => (value.lower_still st).bind fun _ =>
        storeChecked_still st d _
  | broken d next =>
    exact .silently (d.lowerTarget_still st).discard fun _ => .refuseBefore _ _

theorem Condition.lower_still (st : ScopeStack) (c : Condition) :
    StillAt st c.lower c.test.references :=
  .silently (.terminal _) fun _ => (c.test.lower_still st).andThen fun _ =>
    .silently (.terminal _) fun _ => .check _

/-! ## Parts of declarations -/

theorem ScalarSpec.lower_still (st : ScopeStack) (s : ScalarSpec) : StillAt st s.lower [] := by
  cases s with
  | read token => exact .silently (.consume _) fun _ => .pure _
  | missing next => exact .silently (.refuseBefore _ _) fun _ => .pure _

theorem TypeSpec.lower_still (st : ScopeStack) (spec : TypeSpec) : StillAt st spec.lower [] := by
  cases spec with
  | scalar s => exact .silently (s.lower_still st) fun _ => .pure _
  | struct keyword name =>
    exact .silently (.consume _) fun _ => .silently (.terminal _) fun _ => .pure _

theorem lowerBounds_still (st : ScopeStack) (indices : List Index) :
    StillAt st (lowerBounds indices) [] := by
  induction indices with
  | nil => exact .pure _
  | cons i indices ih =>
    refine .silently (.consume _) fun _ => .silently (.terminal _) fun _ => ?_
    have hrest : ∀ bound : List Nat, StillAt st (do
        i.closing.lower
        let bounds ← lowerBounds indices
        return bound ++ bounds) [] :=
      fun bound => .silently (.terminal _) fun _ => .silently ih fun _ => .pure _
    cases i.number with
    | missing kind next => exact .silently (.pure _) fun bound => hrest bound
    | read token =>
      dsimp only
      cases Text.word? token.value with
      | none => exact .silently (.refuse _) fun _ => .silently (.pure _) fun bound => hrest bound
      | some n => exact .silently (.pure _) fun bound => hrest bound

end SlotLang
