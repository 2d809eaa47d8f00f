import SlotLang.Proofs.ActionTyping
import SlotLang.Proofs.Decoding
import SlotLang.Proofs.Footprint
import SlotLang.Proofs.Headers

/-!
# Every listing can be read

The names in the code of a program come from the words of its text: a call is labelled by the names of
procedures, and what is stored outside of the program is addressed by an external name.  A word has
neither blanks nor line breaks, and it does not start like a numeral, so the instructions of the code
can be told from each other.  A procedure whose name is missing has an empty name, and this does no
harm.

A phrase is followed through the scopes that it finds.  They may hold anything under any name, as long
as procedures and external names in them are named by words; the names of variables only matter to the
header.  So statements need no assumption at all, and all that must be known of a text are the names of
its procedures, of its external names, and of what it declares outside of procedures.
-/

namespace SlotLang

open Lowering Aggregate

/-! ## Words -/

theorem IsWord.unbroken {text : String} (h : IsWord text) : Unbroken text := by
  intro c hc
  constructor
  · rintro rfl
    exact h.not_mem (by decide) (by decide) hc
  · rintro rfl
    exact h.not_mem (by decide) (by decide) hc

/-- A word is no numeral. -/
theorem IsWord.ne_toString {text : String} (h : IsWord text) (n : Nat) : text ≠ toString n := by
  rintro rfl
  obtain ⟨c, rest, htext, hstart, -⟩ := h
  have hdigit : c.isDigit = true :=
    Text.isDigit_of_mem_toString (htext ▸ List.mem_cons_self : c ∈ (toString n).toList)
  simp [LexemeRule.isDigit_of_isWordStart hstart] at hdigit

theorem IsProcedureName.unbroken {name : String} (h : IsProcedureName name) : Unbroken name := by
  rcases h with rfl | hword
  · decide
  · exact hword.unbroken

theorem unbroken_joinNames {names : List String} (h : ∀ name ∈ names, IsProcedureName name) :
    Unbroken (ScopeStack.joinNames names) := by
  induction names with
  | nil => decide
  | cons name names ih =>
    obtain ⟨hname, hnames⟩ := List.forall_mem_cons.mp h
    by_cases hlast : names = []
    · simpa [hlast, ScopeStack.joinNames] using hname.unbroken
    · rw [ScopeStack.joinNames, String.intercalate_cons_of_ne_nil hlast]
      exact (hname.unbroken.append (by decide)).append (ih hnames)

/-- No label of a procedure looks like one that is drawn. -/
theorem label_legible {names : List String} {name : String}
    (hnames : ∀ other ∈ names, IsProcedureName other) (hname : IsProcedureName name) :
    (Label.named (ScopeStack.joinNames (names ++ [name]))).Legible :=
  ⟨unbroken_joinNames (List.forall_mem_append.mpr ⟨hnames, by simpa using hname⟩),
    IsProcedureLabel.ne_fresh ⟨names, name, rfl, hname⟩⟩

/-! ## Scopes -/

/-- If it is a procedure, it has the name of one. -/
def Symbol.Legible (s : Symbol) : Prop := s.kind = .procedure → IsProcedureName s.name

theorem Symbol.legible_of_hasStorage {s : Symbol} (h : s.kind.hasStorage = true) : s.Legible := by
  intro hkind
  rw [hkind] at h
  cases h

structure Resolved.Legible (target : Resolved) : Prop where
  symbol : target.symbol.Legible
  external : target.external = true → IsWord target.symbol.name

structure ScopeStack.Legible (st : ScopeStack) : Prop where
  ne_nil : st.scopes ≠ []
  symbols : st.Every Symbol.Legible
  externals : ∀ s ∈ st.externals.entries, IsWord s.name
  procedures : ∀ name ∈ st.openProcedures, IsProcedureName name

namespace ScopeStack

variable {st st' : ScopeStack} {added : List Symbol}

theorem Every.adds {P : Symbol → Prop} (h : st.Every P) (hadds : st.Adds st' added)
    (hadded : ∀ s ∈ added, P s) : st'.Every P := by
  obtain ⟨hexternals, -, scope, grown, outer, hscopes, hgrown, hsymbols⟩ := hadds
  refine ⟨fun other hother s hs => ?_, hexternals ▸ h.external⟩
  rw [hgrown] at hother
  rcases List.mem_cons.mp hother with rfl | hother
  · have hmem : s ∈ scope.symbols ++ added := hsymbols ▸ List.mem_reverse.mpr hs
    rcases List.mem_append.mp hmem with hs | hs
    · exact h.declared scope (by simp [hscopes]) s (List.mem_reverse.mp hs)
    · exact hadded s hs
  · exact h.declared other (by simp [hscopes, hother]) s hs

theorem Legible.adds (h : st.Legible) (hadds : st.Adds st' added)
    (hadded : ∀ s ∈ added, s.Legible) : st'.Legible :=
  ⟨hadds.ne_nil, h.symbols.adds hadds hadded, hadds.externals ▸ h.externals,
    hadds.procedures ▸ h.procedures⟩

theorem Legible.resolve (h : st.Legible) {name : String} {target : Resolved}
    (hfound : st.resolve name = some target) : target.Legible := by
  cases resolve_eq_some_iff.mp hfound with
  | declared hscopes _ hlatest =>
    exact ⟨h.symbols.declared _ (by simp [hscopes]) _ hlatest.mem, fun hexternal => by cases hexternal⟩
  | external _ hlatest =>
    exact ⟨h.symbols.external _ hlatest.mem, fun _ => h.externals _ hlatest.mem⟩

/-- A procedure is declared and its scope is opened. -/
theorem Legible.enter (h : st.Legible) {name : String} (hname : IsProcedureName name) :
    ((st.declareProcedure name).2.enterProcedure name).2.Legible := by
  have hsymbol : (st.declareProcedure name).1.Legible := fun _ => hname
  have hdeclared := h.adds (adds_declareProcedure h.ne_nil name) (by simpa using hsymbol)
  have hopened := hdeclared.symbols.openScope
  exact ⟨List.cons_ne_nil _ _, ⟨hopened.declared, hopened.external⟩, hdeclared.externals,
    List.forall_mem_cons.mpr ⟨hname, hdeclared.procedures⟩⟩

theorem Legible.labelFor (h : st.Legible) {name : String} (hname : IsProcedureName name) :
    (Label.named (st.labelFor name)).Legible :=
  label_legible (fun other hother => h.procedures other (List.mem_reverse.mp hother)) hname

end ScopeStack

theorem Resolved.Legible.address {target : Resolved} (h : target.Legible) {address : Address}
    (haddress : target.storage = .global address) : address.Legible := by
  unfold Resolved.storage at haddress
  split at haddress
  next hexternal =>
    cases haddress
    exact ⟨(h.external hexternal).unbroken, (h.external hexternal).ne_toString⟩
  next =>
    split at haddress
    · cases haddress
      trivial
    · cases haddress

theorem Resolved.Legible.loadOp {target : Resolved} (h : target.Legible) (level : Nat) :
    (target.loadOp level).Legible := by
  unfold Resolved.loadOp
  split
  next haddress => exact h.address haddress
  next => trivial

theorem Resolved.Legible.storeOp {target : Resolved} (h : target.Legible) (level : Nat) :
    (target.storeOp level).Legible := by
  unfold Resolved.storeOp
  split
  next haddress => exact h.address haddress
  next => trivial

theorem callLabel_legible {st : ScopeStack} (hst : st.Legible) {target : Resolved}
    (h : target.Legible) (hkind : target.symbol.kind = .procedure) :
    (Label.named (callLabel st target)).Legible := by
  unfold callLabel
  split
  next hexternal =>
    have hlabel := @label_legible [] _ (by simp) (.inr (h.external hexternal))
    simpa [ScopeStack.joinNames] using hlabel
  next =>
    refine label_legible (fun name hname => ?_) (h.symbol hkind)
    exact hst.procedures name (List.mem_of_mem_drop (List.mem_reverse.mp hname))

/-! ## Phrases without code -/

/-- Whatever the phrase does, it produces no code. -/
def Quiet {α : Type} (x : Lowering α) : Prop := ∀ env, (x env).code = []

namespace Quiet

variable {α β : Type} {f : α → Lowering β}

theorem pure (a : α) : Quiet (Pure.pure a : Lowering α) := fun _ => rfl

theorem bind {x : Lowering α} (hx : Quiet x) (hf : ∀ a, Quiet (f a)) : Quiet (x >>= f) := by
  intro env
  rw [bind_apply, hx env, hf]
  rfl

theorem discard {x : Lowering α} (hx : Quiet x) : Quiet (Functor.discard x) := hx.bind fun _ => .pure _

theorem env : Quiet Lowering.env := fun _ => rfl

theorem modifyEnv (g : Env → Env) : Quiet (Lowering.modifyEnv g) := fun _ => rfl

theorem withScopes (g : ScopeStack → α × ScopeStack) : Quiet (Lowering.withScopes g) := fun _ => rfl

theorem consume (token : Token) : Quiet (Lowering.consume token) := fun _ => rfl

theorem refuseBefore (next : Token) (fault : Fault) : Quiet (Lowering.refuseBefore next fault) :=
  fun _ => rfl

theorem refuse (fault : Fault) : Quiet (Lowering.refuse fault) := fun _ => rfl

theorem skip (production : String) (token : Token) : Quiet (Lowering.skip production token) :=
  fun _ => rfl

theorem terminal (t : Terminal) : Quiet t.lower := t.lower_code

theorem separated (h : ∀ a, Quiet (f a)) (items : Separated α) : Quiet (items.lower f) := by
  have hothers : ∀ others, Quiet (Separated.lower.lowerOthers f others) := by
    intro others
    induction others with
    | nil => exact .pure _
    | cons item others ih =>
      exact .bind (.consume _) fun _ => .bind (h _) fun _ => .bind ih fun _ => .pure _
  exact .bind (h _) fun _ => .bind (hothers _) fun _ => .pure _

end Quiet

theorem lowerIndices_quiet (indices : List Index) : Quiet (lowerIndices indices) := by
  induction indices with
  | nil => exact .pure ()
  | cons i indices ih =>
    have hindex : Quiet i.lower :=
      .bind (.consume _) fun _ => .bind (.terminal _) fun _ => .terminal _
    exact .bind hindex fun _ => ih

theorem lowerMemberRefs_quiet (members : List MemberRef) : Quiet (lowerMemberRefs members) := by
  induction members with
  | nil => exact .pure ()
  | cons m members ih =>
    exact .bind (.consume _) fun _ => .bind (.terminal _) fun _ =>
      .bind (lowerIndices_quiet _) fun _ => ih

theorem Designator.lower_quiet (d : Designator) : Quiet d.lower :=
  .bind (.terminal _) fun _ => .bind (lowerIndices_quiet _) fun _ =>
    .bind (lowerMemberRefs_quiet _) fun _ => .pure _

theorem Designator.lowerTarget_quiet (d : Designator) : Quiet d.lowerTarget := by
  refine .bind d.lower_quiet fun name => ?_
  cases name with
  | none => exact .pure none
  | some name =>
    refine .bind .env fun env => ?_
    dsimp only
    split
    · exact .bind (.refuse _) fun _ => .pure _
    · exact .pure _

theorem ScalarSpec.lower_quiet (spec : ScalarSpec) : Quiet spec.lower := by
  cases spec with
  | read token => exact .bind (.consume _) fun _ => .pure _
  | missing next => exact .bind (.refuseBefore _ _) fun _ => .pure _

theorem TypeSpec.lower_quiet (spec : TypeSpec) : Quiet spec.lower := by
  cases spec with
  | scalar spec => exact .bind spec.lower_quiet fun _ => .pure _
  | struct keyword name => exact .bind (.consume _) fun _ => .bind (.terminal _) fun _ => .pure _

theorem lowerBounds_quiet (indices : List Index) : Quiet (lowerBounds indices) := by
  induction indices with
  | nil => exact .pure _
  | cons i indices ih =>
    have hrest (bound : List Nat) : Quiet (do
        i.closing.lower
        let bounds ← lowerBounds indices
        return bound ++ bounds) :=
      .bind (.terminal _) fun _ => .bind ih fun _ => .pure _
    refine .bind (.consume _) fun _ => .bind (.terminal _) fun _ => ?_
    cases i.number with
    | missing kind next => exact .bind (.pure _) hrest
    | read token =>
      dsimp only
      cases Text.word? token.value with
      | none => exact .bind (.refuse _) fun _ => .bind (.pure _) hrest
      | some n => exact .bind (.pure _) hrest

theorem Declarator.lower_quiet (ty : DeclaredTy) (d : Declarator) : Quiet (d.lower ty) := by
  refine .bind (.terminal _) fun _ => .bind (lowerBounds_quiet _) fun bounds => ?_
  cases d.name.value? with
  | none => exact .pure ()
  | some name =>
    intro env
    obtain ⟨arrays, events, -, ⟨-, refusal, -, heq⟩ | ⟨-, heq⟩⟩ :=
      declareVariable_apply name ty bounds env
    · exact congrArg Outcome.code heq
    · exact congrArg Outcome.code heq

theorem lowerStructItems_quiet (items : List StructItem) (d : StructDef) :
    Quiet (lowerStructItems d items) := by
  induction items generalizing d with
  | nil => exact .pure _
  | cons item items ih =>
    cases item with
    | skipped token => exact .bind (.skip _ _) fun _ => ih d
    | member spec name bounds semicolon =>
      refine .bind spec.lower_quiet fun ty => .bind (.terminal _) fun _ =>
        .bind (lowerBounds_quiet _) fun bounds => .bind (.terminal _) fun _ => ?_
      cases name.value? with
      | none => exact .bind (.pure d) ih
      | some name =>
        refine .bind (fun env => ?_) ih
        rcases addMembers_apply d name ty bounds env with ⟨-, refusal, -, heq⟩ | ⟨-, heq⟩
        · exact congrArg Outcome.code heq
        · exact congrArg Outcome.code heq

theorem lowerStructDef_quiet (keyword : Token) (name opening : Terminal) (items : List StructItem)
    (closing semicolon : Terminal) :
    Quiet (lowerStructDef keyword name opening items closing semicolon) := by
  have hrest : Quiet (do
      opening.lower
      let d ← lowerStructItems (.new name.valueD) items
      closing.lower
      semicolon.lower
      modifyEnv fun env => { env with structs := env.structs.define d }) :=
    .bind (.terminal _) fun _ => .bind (lowerStructItems_quiet items _) fun _ =>
      .bind (.terminal _) fun _ => .bind (.terminal _) fun _ => .modifyEnv _
  refine .bind (.consume _) fun _ => .bind (.terminal _) fun _ => .bind .env fun env => ?_
  split
  · exact .bind (.refuse _) fun _ => hrest
  · exact hrest

theorem declareExternal_quiet (name : Terminal) (kind : SymbolKind) (ty : Ty) :
    Quiet (declareExternal name kind ty) := by
  unfold declareExternal
  split
  · exact .discard (.withScopes _)
  · exact .pure ()

theorem External.lower_quiet (e : External) : Quiet e.lower := by
  cases e with
  | vars keyword spec names semicolon =>
    exact .bind (.consume _) fun _ => .bind spec.lower_quiet fun ty =>
      .bind (.discard (.separated (fun name => .bind (.terminal name) fun _ =>
        declareExternal_quiet name .var ty) names)) fun _ => .terminal _
  | const keyword constant spec name semicolon =>
    exact .bind (.consume _) fun _ => .bind (.consume _) fun _ => .bind spec.lower_quiet fun ty =>
      .bind (.terminal _) fun _ => .bind (declareExternal_quiet name .const ty) fun _ => .terminal _
  | procedure keyword mark name params semicolon =>
    have hparams : Quiet (lowerExternalParams name params) := by
      cases params with
      | none => exact .pure ()
      | some params =>
        refine .bind (.consume _) fun _ => .bind ?_ fun types => .bind (.terminal _) fun _ =>
          .modifyEnv _
        cases params.types with
        | none => exact .pure _
        | some types => exact .separated ScalarSpec.lower_quiet types
    exact .bind (.consume _) fun _ => .bind (.consume _) fun _ => .bind (.terminal _) fun _ =>
      .bind (declareExternal_quiet name .procedure .undefined) fun _ => .bind hparams fun _ =>
      .terminal _
  | missing keyword next => exact .bind (.consume _) fun _ => .refuseBefore _ _

/-! ## Phrases -/

/-- An environment in which code for names can be emitted. -/
def Env.Legible (env : Env) : Prop := env.scopes.Legible ∧ env.structs.IsStored

theorem Env.Legible.ready {env : Env} (h : env.Legible) : env.Ready := ⟨h.1.ne_nil, h.2⟩

/-- The phrase produces code that can be read, what it gives has the property, and the same can be said
of the phrases behind it. -/
def Legibly {α : Type} (Q : α → Prop) (x : Lowering α) : Prop :=
  ∀ env : Env, env.Legible →
    (x env).env.Legible ∧ Q (x env).value ∧ ∀ i ∈ (x env).code, i.Legible

theorem Op.Legible.plain {op : Op} (h : op.Legible) : (Instruction.plain op).Legible :=
  ⟨by simp [Instruction.plain], h⟩

theorem Label.Legible.landing {label : Label} (h : label.Legible) :
    (Instruction.landing label).Legible :=
  ⟨by simpa [Instruction.landing, Instruction.labelled] using h, trivial⟩

namespace Legibly

variable {α β : Type} {P : α → Prop} {Q : β → Prop}

theorem pure {a : α} (h : P a) : Legibly P (Pure.pure a : Lowering α) :=
  fun _ henv => ⟨henv, h, by simp⟩

theorem done (a : α) : Legibly Anything (Pure.pure a : Lowering α) := .pure trivial

theorem bind {x : Lowering α} {f : α → Lowering β} (hx : Legibly P x)
    (hf : ∀ a, P a → Legibly Q (f a)) : Legibly Q (x >>= f) := by
  intro env henv
  obtain ⟨hfirst, hvalue, hcode⟩ := hx env henv
  obtain ⟨hsecond, hresult, hcode'⟩ := hf _ hvalue _ hfirst
  exact ⟨hsecond, hresult, List.forall_mem_append.mpr ⟨hcode, hcode'⟩⟩

theorem discard {x : Lowering α} (hx : Legibly P x) : Legibly Anything (Functor.discard x) :=
  hx.bind fun _ _ => .done _

/-- A phrase that takes only steps adds no procedures. -/
theorem quietly {x : Lowering α} (hx : Modest P x) (hcode : Quiet x) : Legibly P x := by
  intro env henv
  obtain ⟨hsteps, hvalue⟩ := hx env henv.ready
  obtain ⟨-, added, hadds, hstorage⟩ := hsteps.adds henv.1.ne_nil
  refine ⟨⟨henv.1.adds hadds fun s hs => Symbol.legible_of_hasStorage (hstorage s hs),
    (hsteps.ready henv.ready).structs⟩, hvalue, ?_⟩
  simp [hcode env]

theorem env : Legibly Env.Legible Lowering.env := fun _ henv => ⟨henv, henv, by simp [Lowering.env]⟩

theorem freshLabel : Legibly Label.Legible Lowering.freshLabel :=
  fun _ henv => ⟨henv, trivial, by simp [Lowering.freshLabel]⟩

theorem emitAll {code : List Instruction} (h : ∀ i ∈ code, i.Legible) :
    Legibly Anything (Lowering.emitAll code) :=
  fun _ henv => ⟨henv, trivial, h⟩

theorem emit {op : Op} (h : op.Legible) : Legibly Anything (Lowering.emit op) :=
  .emitAll (by simpa using h.plain)

theorem land {label : Label} (h : label.Legible) : Legibly Anything (Lowering.land label) :=
  .emitAll (by simpa using h.landing)

theorem captured {x : Lowering α} (hx : Legibly P x) :
    Legibly (fun result => ∀ i ∈ result.2, i.Legible) (Lowering.captured x) := by
  intro env henv
  obtain ⟨hafter, -, hcode⟩ := hx env henv
  exact ⟨hafter, hcode, by simp [Lowering.captured]⟩

theorem consume (token : Token) : Legibly Anything (Lowering.consume token) :=
  .quietly (.consume token) (.consume token)

theorem refuseBefore (next : Token) (fault : Fault) :
    Legibly Anything (Lowering.refuseBefore next fault) :=
  .quietly (.refuseBefore next fault) (.refuseBefore next fault)

theorem refuse (fault : Fault) : Legibly Anything (Lowering.refuse fault) :=
  .quietly (.refuse fault) (.refuse fault)

theorem skip (production : String) (token : Token) :
    Legibly Anything (Lowering.skip production token) :=
  .quietly (.skip production token) (.skip production token)

theorem check (rule : Except Fault α) : Legibly Anything (Lowering.check rule) := by
  cases rule with
  | ok a => exact .done ()
  | error fault => exact .refuse fault

theorem terminal (t : Terminal) : Legibly Anything t.lower :=
  .quietly (.terminal t) (.terminal t)

theorem load {target : Resolved} (h : target.Legible) : Legibly Anything (Lowering.load target) :=
  .bind .env fun _ _ => .emit (h.loadOp _)

theorem store {target : Resolved} (h : target.Legible) : Legibly Anything (Lowering.store target) :=
  .bind .env fun _ _ => .emit (h.storeOp _)

end Legibly

/-! ### Designators and expressions -/

/-- What is found, if anything is found at all. -/
def FoundLegible (found : Option Resolved) : Prop := ∀ target ∈ found, target.Legible

theorem Designator.lowerTarget_legibly (d : Designator) : Legibly FoundLegible d.lowerTarget := by
  intro env henv
  obtain ⟨hafter, -, hcode⟩ := Legibly.quietly d.lowerTarget_modest d.lowerTarget_quiet env henv
  refine ⟨hafter, fun target htarget => ?_, hcode⟩
  rw [d.lowerTarget_value] at htarget
  obtain ⟨name, -, hfound⟩ := Option.bind_eq_some_iff.mp htarget
  exact henv.1.resolve hfound

namespace Expr

theorem lowerNumber_legibly (token : Token) : Legibly Anything (lowerNumber token) := by
  refine .bind (.consume _) fun _ _ => ?_
  cases Text.integer? token.value with
  | none => exact .bind (.refuse _) fun _ _ => .bind (.emit trivial) fun _ _ => .done _
  | some value => exact .bind (.emit trivial) fun _ _ => .done _

theorem lowerDesignator_legibly (d : Designator) : Legibly Anything (lowerDesignator d) := by
  refine .bind d.lowerTarget_legibly fun found hfound => ?_
  cases found with
  | none => exact .done _
  | some target =>
    dsimp only
    cases Typing.loadable target with
    | ok ty => exact .bind (.load (hfound target rfl)) fun _ _ => .done _
    | error fault => exact .bind (.refuse fault) fun _ _ => .done _

theorem lowerRelational_legibly {right : Lowering Ty} (h : Legibly Anything right) (left : Ty)
    (op : Token) : Legibly Anything (lowerRelational left op right) := by
  refine .bind (.consume _) fun _ _ => .bind h fun rightTy _ => ?_
  cases Typing.relational left rightTy with
  | ok ty => exact .bind (.emit trivial) fun _ _ => .done _
  | error fault => exact .bind (.refuse fault) fun _ _ => .done _

theorem lowerArithmetic_legibly {right : Lowering Ty} (h : Legibly Anything right) (left : Ty)
    (op : Token) : Legibly Anything (lowerArithmetic left op right) :=
  .bind (.consume _) fun _ _ => .bind h fun _ _ => .bind (.check _) fun _ _ =>
    .bind (.emit trivial) fun _ _ => .done _

theorem lower_legibly (e : Expr) : Legibly Anything e.lower := by
  induction e with
  | missing next => exact .bind (.refuseBefore _ _) fun _ _ => .done _
  | number token => exact lowerNumber_legibly token
  | boolean token => exact .bind (.consume _) fun _ _ => .bind (.emit trivial) fun _ _ => .done _
  | designator d => exact lowerDesignator_legibly d
  | negation minus operand ih =>
    exact .bind (.consume _) fun _ _ => .bind ih fun _ _ => .bind (.check _) fun _ _ =>
      .bind (.emit trivial) fun _ _ => .bind (.emit trivial) fun _ _ =>
      .bind (.emit trivial) fun _ _ => .done _
  | grouping opening content closing ih =>
    exact .bind (.consume _) fun _ _ => .bind ih fun _ _ => .bind (.terminal _) fun _ _ => .done _
  | relational left op right ihl ihr => exact .bind ihl fun ty _ => lowerRelational_legibly ihr ty op
  | arithmetic left op right ihl ihr => exact .bind ihl fun ty _ => lowerArithmetic_legibly ihr ty op

end Expr

namespace Separated

variable {α β : Type} {f : α → Lowering β}

theorem lower_legibly (h : ∀ a, Legibly Anything (f a)) (items : Separated α) :
    Legibly Anything (items.lower f) := by
  have hothers : ∀ others, Legibly Anything (lower.lowerOthers f others) := by
    intro others
    induction others with
    | nil => exact .done _
    | cons item others ih =>
      exact .bind (.consume _) fun _ _ => .bind (h _) fun _ _ => .bind ih fun _ _ => .done _
  exact .bind (h _) fun _ _ => .bind (hothers _) fun _ _ => .done _

theorem lower?_legibly (h : ∀ a, Legibly Anything (f a)) (items : Option (Separated α)) :
    Legibly Anything (lower? items f) := by
  cases items with
  | none => exact .done _
  | some items => exact lower_legibly h items

end Separated

/-! ### Declarations -/

theorem ConstEntry.lower_legibly (entry : ConstEntry) : Legibly Anything entry.lower := by
  refine .bind (.quietly entry.ty.lower_modest entry.ty.lower_quiet) fun ty _ =>
    .bind (.terminal _) fun _ _ => ?_
  split
  next name becomes value _ _ =>
    have hconstant (st : ScopeStack) : (st.declareStorage name .const ty).1.Legible := by
      unfold ScopeStack.declareStorage
      split <;> exact Symbol.legible_of_hasStorage rfl
    have hdeclare : Modest Symbol.Legible (withScopes fun st => st.declareStorage name .const ty) :=
      fun _ henv => ⟨.declareStorage henv.ne_nil name rfl ty, hconstant _⟩
    exact .bind (.quietly hdeclare (.withScopes _)) fun s hs => .bind (.terminal _) fun _ _ =>
      .bind value.lower_legibly fun _ _ => .bind (.check _) fun _ _ =>
      .store ⟨hs, fun hexternal => by cases hexternal⟩
  next => exact .done ()

theorem Declaration.lower_legibly (d : Declaration) : Legibly Anything d.lower := by
  cases d with
  | const keyword entries semicolon =>
    exact .bind (.consume _) fun _ _ =>
      .bind (.discard (Separated.lower_legibly ConstEntry.lower_legibly entries)) fun _ _ =>
        .terminal _
  | vars spec declarators semicolon =>
    refine .quietly (Declaration.vars spec declarators semicolon).lower_modest ?_
    exact .bind spec.lower_quiet fun ty =>
      .bind (.discard (.separated (Declarator.lower_quiet ty) declarators)) fun _ => .terminal _
  | structDef keyword name opening items closing semicolon =>
    exact .quietly (Declaration.structDef keyword name opening items closing semicolon).lower_modest
      (lowerStructDef_quiet keyword name opening items closing semicolon)

/-! ### Statements -/

theorem checkAssignable_legibly (target : Option Resolved) :
    Legibly Anything (checkAssignable target) := by
  cases target with
  | none => exact .done ()
  | some target => exact .check _

theorem storeChecked_legibly {target : Option Resolved} (h : FoundLegible target) (ty : Ty) :
    Legibly Anything (storeChecked target ty) := by
  cases target with
  | none => exact .done ()
  | some target => exact .bind (.check _) fun _ _ => .store (h target rfl)

theorem lowerAssign_legibly (d : Designator) (becomes : Token) (value : Expr)
    (semicolon : Terminal) : Legibly Anything (lowerAssign d becomes value semicolon) :=
  .bind d.lowerTarget_legibly fun target htarget => .bind (.consume _) fun _ _ =>
    .bind (checkAssignable_legibly target) fun _ _ => .bind value.lower_legibly fun ty _ =>
    .bind (.terminal _) fun _ _ => storeChecked_legibly htarget ty

theorem lowerChoose_legibly (d : Designator) (becomes : Token) (guard : Expr) (question : Token)
    (first : Expr) (colon : Terminal) (second : Expr) (semicolon : Terminal) :
    Legibly Anything (lowerChoose d becomes guard question first colon second semicolon) :=
  .bind d.lowerTarget_legibly fun target htarget => .bind (.consume _) fun _ _ =>
    .bind (checkAssignable_legibly target) fun _ _ => .bind guard.lower_legibly fun _ _ =>
    .bind (.consume _) fun _ _ => .bind (.check _) fun _ _ =>
    .bind .freshLabel fun _ hother => .bind (.emit hother) fun _ _ =>
    .bind .freshLabel fun _ hlast => .bind first.lower_legibly fun firstTy _ =>
    .bind (.terminal _) fun _ _ => .bind (storeChecked_legibly htarget firstTy) fun _ _ =>
    .bind (.emit hlast) fun _ _ => .bind (.land hother) fun _ _ =>
    .bind second.lower_legibly fun secondTy _ => .bind (.terminal _) fun _ _ =>
    .bind (storeChecked_legibly htarget secondTy) fun _ _ => .land hlast

theorem emitCall_legibly {target : Resolved} (h : target.Legible) (arguments : List Ty) :
    Legibly Anything (emitCall target arguments) := by
  unfold emitCall
  split
  next => exact .refuse _
  next hcallable =>
    -- The label is made of the names of procedures, since nothing else is called.
    have hkind : target.symbol.kind = .procedure := by
      unfold Typing.callable Typing.require at hcallable
      split at hcallable
      next hkind => simpa using hkind
      next => cases hcallable
    refine .bind .env fun here hhere => ?_
    have hcall : Legibly Anything (emit (.call (here.scopes.callLevel target.symbol)
        (.named (callLabel here.scopes target)))) :=
      .emit (callLabel_legible hhere.1 h hkind)
    dsimp only
    split
    · exact .bind (.check _) fun _ _ => hcall
    · exact hcall

theorem lowerCall_legibly (callee : Designator) (opening : Token)
    (arguments : Option (Separated Expr)) (closing semicolon : Terminal) :
    Legibly Anything (lowerCall callee opening arguments closing semicolon) := by
  refine .bind callee.lowerTarget_legibly fun target htarget => .bind (.consume _) fun _ _ =>
    .bind (Separated.lower?_legibly Expr.lower_legibly arguments) fun types _ =>
    .bind (.terminal _) fun _ _ => .bind (.terminal _) fun _ _ => ?_
  cases target with
  | none => exact .done ()
  | some target => exact emitCall_legibly (htarget target rfl) types

theorem lowerRead_legibly (keyword : Token) (d : Designator) (semicolon : Terminal) :
    Legibly Anything (lowerRead keyword d semicolon) := by
  refine .bind (.consume _) fun _ _ => .bind d.lowerTarget_legibly fun target htarget =>
    .bind (.terminal _) fun _ _ => ?_
  cases target with
  | none => exact .done ()
  | some target =>
    exact .bind (.check _) fun _ _ => .bind (.emit trivial) fun _ _ => .store (htarget target rfl)

theorem lowerWrite_legibly (keyword : Token) (operands : Separated Expr) (semicolon : Terminal) :
    Legibly Anything (lowerWrite keyword operands semicolon) := by
  have hoperand (operand : Expr) : Legibly Anything (lowerWriteOperand operand) :=
    .bind operand.lower_legibly fun _ _ => .bind (.check _) fun _ _ => .emit trivial
  exact .bind (.consume _) fun _ _ =>
    .bind (.discard (Separated.lower_legibly hoperand operands)) fun _ _ => .terminal _

theorem Assignment.lower_legibly (a : Assignment) : Legibly Anything a.lower := by
  cases a with
  | complete d becomes value =>
    exact .bind d.lowerTarget_legibly fun target htarget => .bind (.consume _) fun _ _ =>
      .bind (checkAssignable_legibly target) fun _ _ => .bind value.lower_legibly fun ty _ =>
      storeChecked_legibly htarget ty
  | broken d next => exact .bind (.discard d.lowerTarget_legibly) fun _ _ => .refuseBefore _ _

theorem Condition.lower_legibly (c : Condition) : Legibly Anything c.lower :=
  .bind (.terminal _) fun _ _ => .bind c.test.lower_legibly fun _ _ =>
    .bind (.terminal _) fun _ _ => .check _

section Compound

variable {body alternative : Lowering Unit}

theorem lowerBranch_legibly (hbody : Legibly Anything body)
    (halternative : Legibly Anything alternative) (keyword : Token) (condition : Condition) :
    Legibly Anything (lowerBranch keyword condition body alternative) :=
  .bind (.consume _) fun _ _ => .bind condition.lower_legibly fun _ _ =>
    .bind .freshLabel fun _ hother => .bind (.emit hother) fun _ _ => .bind hbody fun _ _ =>
    .bind .freshLabel fun _ hlast => .bind (.emit hlast) fun _ _ => .bind (.land hother) fun _ _ =>
    .bind halternative fun _ _ => .land hlast

theorem lowerWhile_legibly (hbody : Legibly Anything body) (keyword : Token)
    (condition : Condition) : Legibly Anything (lowerWhile keyword condition body) :=
  .bind (.consume _) fun _ _ => .bind .freshLabel fun _ hfirst => .bind .freshLabel fun _ hlast =>
    .bind (.land hfirst) fun _ _ => .bind condition.lower_legibly fun _ _ =>
    .bind (.emit hlast) fun _ _ => .bind hbody fun _ _ => .bind (.emit hfirst) fun _ _ =>
    .land hlast

theorem lowerFor_legibly (hbody : Legibly Anything body) (keyword : Token) (opening : Terminal)
    (init : Assignment) (afterInit : Terminal) (test : Expr) (afterTest : Terminal)
    (step : Assignment) (closing : Terminal) : Legibly Anything
      (lowerFor keyword opening init afterInit test afterTest step closing body) :=
  .bind (.consume _) fun _ _ => .bind (.terminal _) fun _ _ => .bind init.lower_legibly fun _ _ =>
    .bind (.terminal _) fun _ _ => .bind .freshLabel fun _ hback => .bind (.emit hback) fun _ _ =>
    .bind .freshLabel fun _ hfirst => .bind .freshLabel fun _ hlast =>
    .bind (.land hfirst) fun _ _ => .bind test.lower_legibly fun _ _ =>
    .bind (.terminal _) fun _ _ => .bind step.lower_legibly fun _ _ =>
    .bind (.terminal _) fun _ _ => .bind (.check _) fun _ _ => .bind (.emit hlast) fun _ _ =>
    .bind hbody fun _ _ => .bind (.land hback) fun _ _ => .bind (.emit hfirst) fun _ _ =>
    .land hlast

theorem lowerCase_legibly (hbody : Legibly Anything body) {subject : List Instruction}
    (hsubject : ∀ i ∈ subject, i.Legible) {last : Label} (hlast : last.Legible) (ty : Ty)
    (keyword : Token) (label : Expr) (colon : Terminal) :
    Legibly Anything (lowerCase ty subject last keyword label colon body) :=
  .bind (.consume _) fun _ _ => .bind (.emitAll hsubject) fun _ _ =>
    .bind label.lower_legibly fun _ _ => .bind (.terminal _) fun _ _ => .bind (.check _) fun _ _ =>
    .bind .freshLabel fun _ hnext => .bind (.emit trivial) fun _ _ => .bind (.emit hnext) fun _ _ =>
    .bind hbody fun _ _ => .bind (.emit hlast) fun _ _ => .land hnext

theorem lowerFallback_legibly (fallback : Option (Token × Terminal)) :
    Legibly Anything (lowerFallback fallback) := by
  cases fallback with
  | none => exact .done ()
  | some parts => exact .bind (.consume _) fun _ _ => .terminal _

theorem lowerSwitch_legibly {cases : Ty → List Instruction → Label → Lowering Unit}
    (hcases : ∀ ty {code : List Instruction} {last : Label}, (∀ i ∈ code, i.Legible) →
      last.Legible → Legibly Anything (cases ty code last))
    (hbody : Legibly Anything body) (keyword : Token) (opening : Terminal) (subject : Expr)
    (closing brace : Terminal) (fallback : Option (Token × Terminal)) (closingBrace : Terminal) :
    Legibly Anything
      (lowerSwitch keyword opening subject closing brace cases fallback body closingBrace) :=
  .bind (.consume _) fun _ _ => .bind (.terminal _) fun _ _ =>
    .bind (.captured subject.lower_legibly) fun _ hcode => .bind (.terminal _) fun _ _ =>
    .bind (.terminal _) fun _ _ => .bind .freshLabel fun _ hlast =>
    .bind (hcases _ hcode hlast) fun _ _ => .bind (lowerFallback_legibly fallback) fun _ _ =>
    .bind hbody fun _ _ => .bind (.terminal _) fun _ _ => .land hlast

end Compound

mutual

theorem Stmt.lower_legibly : ∀ s : Stmt, Legibly Anything s.lower
  | .missing _ => .refuseBefore _ _
  | .broken target => .discard (.quietly target.lower_modest target.lower_quiet)
  | .dangling target _ => .bind (.discard target.lowerTarget_legibly) fun _ _ => .refuseBefore _ _
  | .assign target becomes value semicolon => lowerAssign_legibly target becomes value semicolon
  | .choose target becomes guard question first colon second semicolon =>
      lowerChoose_legibly target becomes guard question first colon second semicolon
  | .call callee opening arguments closing semicolon =>
      lowerCall_legibly callee opening arguments closing semicolon
  | .branch keyword condition body =>
      lowerBranch_legibly body.lower_legibly (.done ()) keyword condition
  | .branchElse keyword condition body _ alternative =>
      lowerBranch_legibly body.lower_legibly
        (.bind (.consume _) fun _ _ => alternative.lower_legibly) keyword condition
  | .whileLoop keyword condition body => lowerWhile_legibly body.lower_legibly keyword condition
  | .forLoop keyword opening init afterInit test afterTest step closing body =>
      lowerFor_legibly body.lower_legibly keyword opening init afterInit test afterTest step closing
  | .switch keyword opening subject closing brace cases fallback fallbackBody closingBrace =>
      lowerSwitch_legibly (lowerCases_legibly cases) (lowerStmts_legibly fallbackBody) keyword
        opening subject closing brace fallback closingBrace
  | .read keyword target semicolon => lowerRead_legibly keyword target semicolon
  | .write keyword operands semicolon => lowerWrite_legibly keyword operands semicolon
  | .block _ items _ => .bind (.consume _) fun _ _ =>
      .bind (lowerBlockItems_legibly items) fun _ _ => .terminal _

theorem lowerStmts_legibly : ∀ stmts : List Stmt, Legibly Anything (lowerStmts stmts)
  | [] => .done ()
  | s :: more => .bind s.lower_legibly fun _ _ => lowerStmts_legibly more

theorem lowerCases_legibly : ∀ (cases : List Case) (ty : Ty) {code : List Instruction}
    {last : Label}, (∀ i ∈ code, i.Legible) → last.Legible →
      Legibly Anything (lowerCases ty code last cases)
  | [], _, _, _, _, _ => .done ()
  | .mk keyword label colon body :: more, ty, _, _, hcode, hlast =>
      .bind (lowerCase_legibly (lowerStmts_legibly body) hcode hlast ty keyword label colon)
        fun _ _ => lowerCases_legibly more ty hcode hlast

theorem lowerBlockItems_legibly : ∀ items : List BlockItem, Legibly Anything (lowerBlockItems items)
  | [] => .done ()
  | item :: more => .bind item.lower_legibly fun _ _ => lowerBlockItems_legibly more

theorem BlockItem.lower_legibly : ∀ item : BlockItem, Legibly Anything item.lower
  | .declaration d => d.lower_legibly
  | .statement s => s.lower_legibly
  | .skipped token => .skip _ token

end

/-! ### Procedures -/

theorem Param.lower_quiet (p : Param) : Quiet p.lower := by
  refine .bind p.ty.lower_quiet fun ty => .bind (.terminal _) fun _ => ?_
  split
  · exact .bind (.discard (.withScopes _)) fun _ => .pure _
  · exact .pure _

theorem openProcedure_legibly (keyword : Token) {name : Terminal}
    (hname : IsProcedureName name.valueD) : Legibly Anything (openProcedure keyword name) := by
  intro env henv
  obtain ⟨hscopes, hstructs, hsubjects⟩ :=
    Stage.mk.inj (@openProcedure_stage [] keyword name env)
  refine ⟨⟨hscopes ▸ henv.1.enter hname, hstructs ▸ henv.2⟩, trivial, ?_⟩
  have hcode : (openProcedure keyword name env).code = [] := by cases name <;> rfl
  simp [hcode]

theorem storeArguments_legible (count : Nat) : ∀ i ∈ storeArguments count, i.Legible := by
  intro i hi
  obtain ⟨offset, -, rfl⟩ := List.mem_map.mp hi
  exact Op.Legible.plain trivial

theorem Procedure.lowerHead_legibly (p : Procedure) (hname : IsProcedureName p.name) :
    Legibly Anything p.lowerHead := by
  cases p with
  | mk keyword name opening params closing brace body closingBrace =>
    have hparam (param : Param) : Legibly Anything param.lower :=
      .quietly param.lower_modest param.lower_quiet
    have hregister (label : String) (signature : Signature) :
        Legibly Anything (registerSignature label signature) :=
      fun _ henv => ⟨henv, trivial, by simp [registerSignature, modifyEnv]⟩
    exact .bind (openProcedure_legibly keyword hname) fun _ _ => .bind (.terminal _) fun _ _ =>
      .bind (Separated.lower?_legibly hparam params) fun types _ => .bind (.terminal _) fun _ _ =>
      .bind (hregister _ _) fun _ _ =>
      .bind (.emitAll (storeArguments_legible types.length)) fun _ _ => .terminal _

/-- A procedure leaves nothing behind but its own declaration. -/
theorem Procedure.legibly_of_body {p : Procedure} (hname : IsProcedureName p.name)
    (hbody : Legibly Anything (lowerBodyItems p.body)) : Legibly Anything p.lower := by
  intro env henv
  -- The scopes inside are not the scopes behind the procedure, so both are looked at.
  have hleaves : (p.lower env).Leaves env
      [⟨p.name, .procedure, .undefined, env.scopes.depth, none⟩] := by
    cases p with
    | mk keyword name opening params closing brace body closingBrace =>
      exact lowerProcedure_leaves (lowerBodyItems_staysInside body) keyword name opening params
        closing brace closingBrace env henv.ready
  have hsymbol : (⟨p.name, .procedure, .undefined, env.scopes.depth, none⟩ : Symbol).Legible :=
    fun _ => hname
  obtain ⟨hinside, -, hhead⟩ := p.lowerHead_legibly hname env henv
  obtain ⟨-, -, hcode⟩ := hbody _ hinside
  refine ⟨⟨henv.1.adds hleaves.scopes (by simpa using hsymbol), hleaves.structs⟩, trivial, ?_⟩
  rw [p.lower_code]
  refine List.forall_mem_cons.mpr ⟨⟨?_, trivial⟩, List.forall_mem_append.mpr ⟨hhead,
    List.forall_mem_append.mpr ⟨hcode, ?_⟩⟩⟩
  · simpa [Procedure.enter, Instruction.labelled] using henv.1.labelFor hname
  · simpa using ⟨Op.Legible.plain trivial, Op.Legible.plain trivial⟩

mutual

theorem Procedure.lower_legibly : ∀ p : Procedure, p.Named IsProcedureName → Legibly Anything p.lower
  | .mk _ _ _ _ _ _ body _, h => Procedure.legibly_of_body h.1 (lowerBodyItems_legibly body h.2)

theorem lowerBodyItems_legibly : ∀ items : List BodyItem, bodyNamed IsProcedureName items →
    Legibly Anything (lowerBodyItems items)
  | [], _ => .done ()
  | item :: more, h => .bind (item.lower_legibly h.1) fun _ _ => lowerBodyItems_legibly more h.2

theorem BodyItem.lower_legibly : ∀ item : BodyItem, item.Named IsProcedureName →
    Legibly Anything item.lower
  | .declaration d, _ => d.lower_legibly
  | .statement s, _ => s.lower_legibly
  | .nested p, h =>
      .bind .freshLabel fun _ hpast => .bind (.emit hpast) fun _ _ =>
        .bind (p.lower_legibly h) fun _ _ => .land hpast
  | .skipped token, _ => .skip _ token

end

end SlotLang
