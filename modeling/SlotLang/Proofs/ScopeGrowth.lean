import Mathlib.Data.List.Forall2
import SlotLang.Proofs.Elaboration

/-!
# How scopes grow

While a program is walked over, scopes are opened and closed, and the innermost one grows; what was
declared before stays where it is.  So the scopes that are open at a point of a routine are earlier
stages of the scopes that the routine and the routines around it have in the end, and this is what
makes it possible to speak of the frame of a routine at all: its size is known only behind its last
declaration, and every name in front of that has been resolved in a smaller scope.

Storage is laid out by counting.  In every scope the symbols with storage have the offsets from zero
on, in the order of their declarations, and the depth of the scope is their frame depth.
-/

namespace SlotLang

open Aggregate

/-! ## Layout of a scope -/

/-- The symbols, given the latest first, have the slots from zero on in a frame of this depth. -/
def LaidOut (depth : Nat) : List Symbol → Prop
  | [] => True
  | s :: older =>
      (s.kind.hasStorage = true →
        s.frameDepth = depth ∧ s.offset = some (older.countP (·.kind.hasStorage))) ∧
      LaidOut depth older

/-- The symbol has the slot of this offset in the scope. -/
structure Scope.Stores (scope : Scope) (s : Symbol) (offset : Nat) : Prop where
  declared : s ∈ scope.entries
  storage : s.kind.hasStorage = true
  offset : s.offset = some offset

theorem LaidOut.frameDepth {depth : Nat} {entries : List Symbol} {s : Symbol}
    (h : LaidOut depth entries) (hs : s ∈ entries) (hstorage : s.kind.hasStorage = true) :
    s.frameDepth = depth := by
  induction entries with
  | nil => simp at hs
  | cons t entries ih =>
    rcases List.mem_cons.mp hs with rfl | hs
    · exact (h.1 hstorage).1
    · exact ih h.2 hs

theorem LaidOut.offset_lt {depth : Nat} {entries : List Symbol} {s : Symbol}
    (h : LaidOut depth entries) (hs : s ∈ entries) (hstorage : s.kind.hasStorage = true) :
    ∃ offset, s.offset = some offset ∧ offset < entries.countP (·.kind.hasStorage) := by
  induction entries with
  | nil => simp at hs
  | cons t entries ih =>
    rcases List.mem_cons.mp hs with rfl | hs
    · refine ⟨_, (h.1 hstorage).2, ?_⟩
      simp [hstorage]
    · obtain ⟨offset, hoffset, hlt⟩ := ih h.2 hs
      exact ⟨offset, hoffset, Nat.lt_of_lt_of_le hlt (List.countP_cons ▸ Nat.le_add_right _ _)⟩

/-- Two symbols of one scope never share a slot. -/
theorem LaidOut.pairwise_offset_ne {depth : Nat} {entries : List Symbol}
    (h : LaidOut depth entries) :
    (entries.filter (·.kind.hasStorage)).Pairwise fun s t => s.offset ≠ t.offset := by
  induction entries with
  | nil => simp
  | cons s entries ih =>
    by_cases hstorage : s.kind.hasStorage = true
    · rw [List.filter_cons, if_pos hstorage, List.pairwise_cons]
      refine ⟨?_, ih h.2⟩
      intro t ht heq
      obtain ⟨hmem, htstorage⟩ := List.mem_filter.mp ht
      obtain ⟨offset, hoffset, hlt⟩ := h.2.offset_lt hmem htstorage
      rw [(h.1 hstorage).2, hoffset] at heq
      exact Nat.lt_irrefl _ (Option.some.inj heq ▸ hlt)
    · rw [List.filter_cons, if_neg hstorage]
      exact ih h.2

/-- The scopes of a stack, given the innermost first, have their depths as frame depths. -/
def LaidOutStack : List Scope → Prop
  | [] => True
  | scope :: outer => LaidOut outer.length scope.entries ∧ LaidOutStack outer

theorem Scope.laidOut_push {depth : Nat} {scope : Scope} {s : Symbol}
    (h : LaidOut depth scope.entries)
    (hs : s.kind.hasStorage = true → s.frameDepth = depth ∧ s.offset = some scope.slots) :
    LaidOut depth (scope.push s).entries := by
  refine ⟨?_, h⟩
  rw [← scope.slots_eq]
  exact hs

namespace ScopeStack

/-! ## Stages of a stack -/

/-- Each of the scopes is an earlier stage of the scope at the same place of the second list. -/
def Stages (scopes final : List Scope) : Prop :=
  List.Forall₂ (fun scope later : Scope => scope.entries <:+ later.entries) scopes final

theorem Stages.refl (scopes : List Scope) : Stages scopes scopes :=
  List.forall₂_same.mpr fun _ _ => List.suffix_rfl

theorem Stages.trans {first second third : List Scope} (h₁ : Stages first second)
    (h₂ : Stages second third) : Stages first third := by
  induction h₁ generalizing third with
  | nil => exact h₂
  | cons hhead _ ih =>
    cases h₂ with
    | cons hhead' htail' => exact .cons (hhead.trans hhead') (ih htail')

/-- The second stack comes from the first one by declarations in the innermost scope and of external
names. -/
structure Grows (st st' : ScopeStack) : Prop where
  stages : Stages st.scopes st'.scopes
  outer : st'.scopes.tail = st.scopes.tail
  externals : st.externals.entries <:+ st'.externals.entries
  procedures : st'.openProcedures = st.openProcedures

theorem Grows.refl (st : ScopeStack) : st.Grows st :=
  ⟨.refl _, rfl, List.suffix_rfl, rfl⟩

theorem Grows.trans {st st₁ st₂ : ScopeStack} (h₁ : st.Grows st₁) (h₂ : st₁.Grows st₂) :
    st.Grows st₂ :=
  ⟨h₁.stages.trans h₂.stages, h₂.outer.trans h₁.outer, h₁.externals.trans h₂.externals,
    h₂.procedures.trans h₁.procedures⟩

theorem Grows.ne_nil {st st' : ScopeStack} (h : st.Grows st') (hne : st.scopes ≠ []) :
    st'.scopes ≠ [] := by
  intro hnil
  have hstages := h.stages
  rw [hnil] at hstages
  exact hne (List.forall₂_nil_right_iff.mp hstages)

/-- Declarations that keep the layout. -/
structure Extends (st st' : ScopeStack) : Prop where
  grows : st.Grows st'
  laidOut : LaidOutStack st.scopes → LaidOutStack st'.scopes

theorem Extends.refl (st : ScopeStack) : st.Extends st := ⟨.refl st, id⟩

theorem Extends.trans {st st₁ st₂ : ScopeStack} (h₁ : st.Extends st₁) (h₂ : st₁.Extends st₂) :
    st.Extends st₂ :=
  ⟨h₁.grows.trans h₂.grows, fun h => h₂.laidOut (h₁.laidOut h)⟩

theorem extends_push {scope : Scope} {outer : List Scope} {externals : Scope}
    {procedures : List String} {s : Symbol}
    (hs : s.kind.hasStorage = true →
      s.frameDepth = outer.length ∧ s.offset = some scope.slots) :
    Extends ⟨scope :: outer, externals, procedures⟩
      ⟨scope.push s :: outer, externals, procedures⟩ where
  grows := ⟨.cons (List.suffix_cons s _) (Stages.refl outer), rfl, List.suffix_rfl, rfl⟩
  laidOut h := ⟨Scope.laidOut_push h.1 hs, h.2⟩

theorem declareLocal_cons (scope : Scope) (outer : List Scope) (externals : Scope)
    (procedures : List String) (name : String) (kind : SymbolKind) (ty : Ty) :
    declareLocal ⟨scope :: outer, externals, procedures⟩ name kind ty =
      (⟨name, kind, ty, outer.length, some scope.slots⟩,
        ⟨scope.push ⟨name, kind, ty, outer.length, some scope.slots⟩ :: outer, externals,
          procedures⟩) := by
  simp [declareLocal, ensureScope, pushCurrent, depth, current?, slotCount]

theorem declareStorage_cons (scope : Scope) (outer : List Scope) (externals : Scope)
    (procedures : List String) (name : String) (kind : SymbolKind) (ty : Ty) :
    declareStorage ⟨scope :: outer, externals, procedures⟩ name kind ty =
      (⟨name, kind, ty, outer.length, some scope.slots⟩,
        ⟨scope.push ⟨name, kind, ty, outer.length, some scope.slots⟩ :: outer, externals,
          procedures⟩) := by
  cases outer with
  | nil => simp [declareStorage, depth, declareGlobal, ensureScope, pushLast, global?, slotCount]
  | cons next outer =>
    rw [declareStorage, if_neg (by simp [depth]), declareLocal_cons]

theorem declareProcedure_cons (scope : Scope) (outer : List Scope) (externals : Scope)
    (procedures : List String) (name : String) :
    declareProcedure ⟨scope :: outer, externals, procedures⟩ name =
      (⟨name, .procedure, .undefined, outer.length + 1, none⟩,
        ⟨scope.push ⟨name, .procedure, .undefined, outer.length + 1, none⟩ :: outer, externals,
          procedures⟩) := by
  simp [declareProcedure, ensureScope, pushCurrent, depth]

variable {st : ScopeStack}

theorem extends_declareStorage (hne : st.scopes ≠ []) (name : String) (kind : SymbolKind)
    (ty : Ty) : st.Extends (st.declareStorage name kind ty).2 := by
  obtain ⟨_ | ⟨scope, outer⟩, externals, procedures⟩ := st
  · simp at hne
  · rw [declareStorage_cons]
    exact extends_push fun _ => ⟨rfl, rfl⟩

theorem extends_declareProcedure (hne : st.scopes ≠ []) (name : String) :
    st.Extends (st.declareProcedure name).2 := by
  obtain ⟨_ | ⟨scope, outer⟩, externals, procedures⟩ := st
  · simp at hne
  · rw [declareProcedure_cons]
    refine extends_push ?_
    simp [SymbolKind.hasStorage]

theorem extends_declareExternal (st : ScopeStack) (name : String) (kind : SymbolKind) (ty : Ty) :
    st.Extends (st.declareExternal name kind ty).2 :=
  ⟨⟨.refl _, rfl, List.suffix_cons _ _, rfl⟩, id⟩

theorem extends_declareAll (hne : st.scopes ≠ []) (members : List Member) :
    st.Extends (st.declareAll members) := by
  induction members generalizing st with
  | nil => exact .refl st
  | cons m members ih =>
    have hfirst := extends_declareStorage hne m.path m.kind m.ty
    exact hfirst.trans (ih (hfirst.grows.ne_nil hne))

/-- A stack that is open somewhere inside a routine: its scopes are earlier stages of the scopes that
the routine and the routines around it have in the end, and so are its external names. -/
structure Past (st : ScopeStack) (chain : List Scope) (externals : Scope) : Prop where
  stages : Stages st.scopes chain
  externals : st.externals.entries <:+ externals.entries

theorem Grows.past {st st' : ScopeStack} {chain : List Scope} {externals : Scope}
    (h : st.Grows st') (hpast : st'.Past chain externals) : st.Past chain externals :=
  ⟨h.stages.trans hpast.stages, h.externals.trans hpast.externals⟩

end ScopeStack

/-! ## Actions -/

/-- A phrase goes from one stack to a later one, and all its names are resolved on the way. -/
structure Settled (st final : ScopeStack) (uses : (Use → Prop) → Prop) : Prop where
  growth : st.Extends final
  uses : ∀ P, (∀ u : Use, st.Grows u.scopes → u.scopes.Grows final → P u) → uses P

namespace Settled

variable {st st₁ st₂ : ScopeStack} {U V : (Use → Prop) → Prop}

theorem append (h₁ : Settled st st₁ U) (h₂ : Settled st₁ st₂ V) :
    Settled st st₂ fun P => U P ∧ V P where
  growth := h₁.growth.trans h₂.growth
  uses P hP :=
    ⟨h₁.uses P fun u hst hfinal => hP u hst (hfinal.trans h₂.growth.grows),
      h₂.uses P fun u hst hfinal => hP u (h₁.growth.grows.trans hst) hfinal⟩

theorem imp (h : Settled st st₁ U) (himp : ∀ P, (∀ name, P ⟨name, st⟩) → U P → V P) :
    Settled st st₁ V where
  growth := h.growth
  uses P hP := himp P (fun name => hP ⟨name, st⟩ (.refl st) h.growth.grows) (h.uses P hP)

theorem of_extends (h : st.Extends st₁) (hU : ∀ P, (∀ name, P ⟨name, st₁⟩) → U P) :
    Settled st st₁ U :=
  ⟨h, fun P hP => hU P fun name => hP ⟨name, st₁⟩ h.grows (.refl st₁)⟩

end Settled

abbrev Settles (X : Static → Action × Static) : Prop :=
  ∀ st : Static, st.scopes.scopes ≠ [] →
    Settled st.scopes (X st).2.scopes fun P => (X st).1.Uses P

theorem Expr.term_uses (e : Expr) {scopes : ScopeStack} {P : Use → Prop}
    (h : ∀ name, P ⟨name, scopes⟩) : (e.term scopes).Uses P := by
  induction e with
  | missing next => trivial
  | number token => trivial
  | boolean token => trivial
  | designator d => exact h _
  | negation minus operand ih => exact ih
  | grouping opening inner closing ih => exact ih
  | relational left op right ihLeft ihRight => exact ⟨ihLeft, ihRight⟩
  | arithmetic left op right ihLeft ihRight => exact ⟨ihLeft, ihRight⟩

namespace Settles

variable {X Y : Static → Action × Static}

/-- A statement that declares nothing. -/
theorem of_uses {f : Static → Action}
    (h : ∀ st P, (∀ name, P ⟨name, st.scopes⟩) → (f st).Uses P) : Settles fun st => (f st, st) :=
  fun st _ => .of_extends (.refl _) (h st)

theorem seq (hX : Settles X) (hY : Settles Y) :
    Settles fun st => (.seq (X st).1 (Y (X st).2).1, (Y (X st).2).2) :=
  fun st hne => (hX st hne).append (hY _ ((hX st hne).growth.grows.ne_nil hne))

theorem all {α : Type} {f : α → Static → Action × Static} (h : ∀ a, Settles (f a))
    (items : List α) : Settles (elaborateAll f items) := by
  induction items with
  | nil => exact of_uses fun _ _ _ => trivial
  | cons a items ih => exact (h a).seq ih

end Settles

theorem ConstEntry.elaborate_settles (entry : ConstEntry) : Settles entry.elaborate := by
  intro st hne
  unfold ConstEntry.elaborate
  split
  next name value hname hvalue =>
    refine .of_extends (ScopeStack.extends_declareStorage hne _ _ _) fun P hP => ?_
    exact ⟨hP _, Expr.term_uses _ hP⟩
  next => exact .of_extends (.refl _) fun _ _ => trivial

theorem Declarator.elaborate_settles (ty : DeclaredTy) (d : Declarator) :
    Settles (d.elaborate ty) :=
  fun _ hne => .of_extends (ScopeStack.extends_declareAll hne _) fun _ _ => trivial

theorem Declaration.elaborate_settles (d : Declaration) : Settles d.elaborate := by
  cases d with
  | const keyword entries semicolon =>
    exact .all ConstEntry.elaborate_settles entries.toList
  | vars spec declarators semicolon =>
    exact .all (Declarator.elaborate_settles spec.declared) declarators.toList
  | structDef keyword name opening items closing semicolon =>
    exact fun st _ => .of_extends (.refl _) fun _ _ => trivial

theorem Assignment.term_uses (a : Assignment) {scopes : ScopeStack} {P : Use → Prop}
    (h : ∀ name, P ⟨name, scopes⟩) : (a.term scopes).Uses P := by
  cases a with
  | complete target becomes value => exact value.term_uses h
  | broken target next => trivial

theorem Assignment.use_holds (a : Assignment) {scopes : ScopeStack} {P : Use → Prop}
    (h : ∀ name, P ⟨name, scopes⟩) : P (a.use scopes) := by
  cases a <;> exact h _

mutual

theorem Stmt.elaborate_settles : ∀ s : Stmt, Settles s.elaborate
  | .missing _ | .broken _ | .dangling _ _ => Settles.of_uses fun _ _ _ => trivial
  | .assign _ _ value _ => Settles.of_uses fun _ _ hP => ⟨hP _, value.term_uses hP⟩
  | .choose _ _ guard _ first _ second _ => Settles.of_uses fun _ _ hP =>
      ⟨hP _, guard.term_uses hP, first.term_uses hP, second.term_uses hP⟩
  | .call _ _ arguments _ _ => Settles.of_uses fun _ _ hP => by
      refine ⟨hP _, fun t ht => ?_⟩
      obtain ⟨e, -, rfl⟩ := List.mem_map.mp ht
      exact e.term_uses hP
  | .branch _ condition body => fun st hne =>
      (body.elaborate_settles st hne).imp fun _ hP h => ⟨condition.test.term_uses hP, h, trivial⟩
  | .branchElse _ condition body _ alternative => fun st hne =>
      (body.elaborate_settles.seq alternative.elaborate_settles st hne).imp fun _ hP h =>
        ⟨condition.test.term_uses hP, h⟩
  | .whileLoop _ condition body => fun st hne =>
      (body.elaborate_settles st hne).imp fun _ hP h => ⟨condition.test.term_uses hP, h⟩
  | .forLoop _ _ init _ test _ step _ body => fun st hne =>
      (body.elaborate_settles st hne).imp fun _ hP h =>
        ⟨⟨init.use_holds hP, init.term_uses hP⟩, test.term_uses hP, step.use_holds hP,
          step.term_uses hP, h⟩
  | .switch _ _ subject _ _ cases _ fallbackBody _ => fun st hne =>
      have hcases := elaborateCases_settles cases st hne
      (hcases.append (elaborateStmts_settles fallbackBody _
        (hcases.growth.grows.ne_nil hne))).imp fun _ hP h => ⟨subject.term_uses hP, h⟩
  | .read _ _ _ => Settles.of_uses fun _ _ hP => hP _
  | .write _ operands _ =>
      Settles.all (fun operand => Settles.of_uses fun _ _ hP => operand.term_uses hP)
        operands.toList
  | .block _ items _ => elaborateBlock_settles items

theorem elaborateStmts_settles : ∀ stmts : List Stmt, Settles (elaborateStmts stmts)
  | [] => Settles.of_uses fun _ _ _ => trivial
  | s :: more => s.elaborate_settles.seq (elaborateStmts_settles more)

theorem elaborateCases_settles : ∀ (cases : List Case) (st : Static), st.scopes.scopes ≠ [] →
    Settled st.scopes (elaborateCases cases st).2.scopes fun P => (elaborateCases cases st).1.Uses P
  | [], _, _ => .of_extends (.refl _) fun _ _ => trivial
  | .mk _ label _ body :: more, st, hne =>
      have hbody := elaborateStmts_settles body st hne
      (hbody.append (elaborateCases_settles more _ (hbody.growth.grows.ne_nil hne))).imp
        fun _ hP h => ⟨label.term_uses hP, h⟩

theorem elaborateBlock_settles : ∀ items : List BlockItem, Settles (elaborateBlock items)
  | [] => Settles.of_uses fun _ _ _ => trivial
  | item :: more => item.elaborate_settles.seq (elaborateBlock_settles more)

theorem BlockItem.elaborate_settles : ∀ item : BlockItem, Settles item.elaborate
  | .declaration d => d.elaborate_settles
  | .statement s => s.elaborate_settles
  | .skipped _ => Settles.of_uses fun _ _ _ => trivial

end

/-! ## Routines -/

/-- The scope of a routine at its end: it is laid out, and the parameters have the first slots. -/
structure Scope.IsFrame (frame : Scope) (depth : Nat) (params : List (String × Ty)) : Prop where
  laidOut : LaidOut depth frame.entries
  params : ∀ k name ty, params[k]? = some (name, ty) →
    ⟨name, .var, ty, depth, some k⟩ ∈ frame.entries

/-- All names in the body are resolved in earlier stages of the scopes of the chain, which are those
of the routine and of what is around it. -/
def Body.Under (externals : Scope) : List Scope → Body → Prop
  | _, .done => True
  | chain, .action a rest =>
      a.Uses (fun u => u.scopes.Past chain externals) ∧ rest.Under externals chain
  | chain, .nested _ params frame inner rest =>
      frame.IsFrame chain.length params ∧ inner.Under externals (frame :: chain) ∧
        rest.Under externals chain

def Routine.Under (externals : Scope) (chain : List Scope) (r : Routine) : Prop :=
  r.frame.IsFrame chain.length r.params ∧ r.body.Under externals (r.frame :: chain)

def Part.Under (externals : Scope) (chain : List Scope) : Part → Prop
  | .action a => a.Uses fun u => u.scopes.Past chain externals
  | .routine r => r.Under externals chain

/-- A stack at which a walk can start: it has a scope, and its scopes are laid out. -/
structure ScopeStack.Sound (st : ScopeStack) : Prop where
  ne_nil : st.scopes ≠ []
  laidOut : LaidOutStack st.scopes

theorem ScopeStack.Extends.sound {st st' : ScopeStack} (h : st.Extends st') (hst : st.Sound) :
    st'.Sound :=
  ⟨h.grows.ne_nil hst.ne_nil, h.laidOut hst.laidOut⟩

/-- A phrase goes from one stack to a later one, and in the light of any later stages it is resolved
under them. -/
structure SettledUnder (st final : ScopeStack) (under : Scope → List Scope → Prop) : Prop where
  growth : st.Extends final
  under : ∀ externals chain, final.Past chain externals → under externals chain

theorem SettledUnder.append {st st₁ st₂ : ScopeStack} {U V : Scope → List Scope → Prop}
    (h₁ : SettledUnder st st₁ U) (h₂ : SettledUnder st₁ st₂ V) :
    SettledUnder st st₂ fun externals chain => U externals chain ∧ V externals chain where
  growth := h₁.growth.trans h₂.growth
  under externals chain hpast :=
    ⟨h₁.under externals chain (h₂.growth.grows.past hpast), h₂.under externals chain hpast⟩

theorem Settled.under {st final : ScopeStack} {U : (Use → Prop) → Prop} (h : Settled st final U) :
    SettledUnder st final fun externals chain => U fun u => u.scopes.Past chain externals :=
  ⟨h.growth, fun _ _ hpast => h.uses _ fun _ _ hfinal => hfinal.past hpast⟩

abbrev SettlesBody (X : Static → Body × Static) : Prop :=
  ∀ st : Static, st.scopes.Sound →
    SettledUnder st.scopes (X st).2.scopes fun externals chain => (X st).1.Under externals chain

/-- What the declaration of the parameters makes of a new scope. -/
theorem declareParams_scopes (params : List Param) (scope : Scope) (outer : List Scope)
    (externals : Scope) (procedures : List String) :
    ∃ scope' : Scope,
      params.foldl Param.declare ⟨scope :: outer, externals, procedures⟩ =
        ⟨scope' :: outer, externals, procedures⟩ ∧
      scope.entries <:+ scope'.entries ∧
      (LaidOut outer.length scope.entries → LaidOut outer.length scope'.entries) ∧
      ∀ k p, params[k]? = some p →
        ⟨p.name.valueD, .var, p.ty.ty, outer.length, some (scope.slots + k)⟩ ∈ scope'.entries := by
  induction params generalizing scope with
  | nil => exact ⟨scope, rfl, List.suffix_rfl, id, by simp⟩
  | cons p params ih =>
    let s : Symbol := ⟨p.name.valueD, .var, p.ty.ty, outer.length, some scope.slots⟩
    obtain ⟨scope', hfold, hsuffix, hlaid, hmem⟩ := ih (scope.push s)
    have hslots : (scope.push s).slots = scope.slots + 1 := by
      simp [Scope.push, s, SymbolKind.hasStorage]
    refine ⟨scope', ?_, (List.suffix_cons _ _).trans hsuffix, ?_, ?_⟩
    · rw [List.foldl_cons, Param.declare, ScopeStack.declareLocal_cons]
      exact hfold
    · exact fun h => hlaid (Scope.laidOut_push h fun _ => ⟨rfl, rfl⟩)
    · intro k q hq
      cases k with
      | zero =>
        cases hq
        exact hsuffix.mem List.mem_cons_self
      | succ k =>
        have hmember := hmem k q hq
        rwa [hslots, Nat.add_assoc, Nat.add_comm 1 k] at hmember

/-- The stack at the start of the body of a procedure, and how it is left. -/
theorem enter_scopes {st : Static} (hst : st.scopes.Sound) (name : String) (params : List Param) :
    ∃ scope : Scope,
      (st.enter name params).scopes.scopes =
        scope :: (st.scopes.declareProcedure name).2.scopes ∧
      (st.enter name params).scopes.externals = (st.scopes.declareProcedure name).2.externals ∧
      (st.enter name params).scopes.openProcedures =
        name :: (st.scopes.declareProcedure name).2.openProcedures ∧
      (st.enter name params).scopes.Sound ∧
      ∀ k p, params[k]? = some p →
        ⟨p.name.valueD, .var, p.ty.ty, (st.scopes.declareProcedure name).2.scopes.length, some k⟩ ∈
          scope.entries := by
  have hdeclared := (ScopeStack.extends_declareProcedure hst.ne_nil name).laidOut hst.laidOut
  obtain ⟨scope, hfold, -, hlaid, hmem⟩ := declareParams_scopes params .empty
    (st.scopes.declareProcedure name).2.scopes (st.scopes.declareProcedure name).2.externals
    (name :: (st.scopes.declareProcedure name).2.openProcedures)
  have hscopes : (st.enter name params).scopes = _ := hfold
  refine ⟨scope, by rw [hscopes], by rw [hscopes], by rw [hscopes], ⟨?_, ?_⟩, ?_⟩
  · rw [hscopes]
    simp
  · rw [hscopes]
    exact ⟨hlaid trivial, hdeclared⟩
  · intro k p hp
    have hmember := hmem k p hp
    rwa [show Scope.empty.slots = 0 from rfl, Nat.zero_add] at hmember

theorem settledUnder_enter {B : Static → Body × Static} (hbody : SettlesBody B) (name : String)
    (params : List Param) {st : Static} (hst : st.scopes.Sound) :
    SettledUnder st.scopes (B (st.enter name params)).2.leave.scopes fun externals chain =>
      Routine.Under externals chain
        ⟨(st.scopes.declareProcedure name).2.labelFor name,
          params.map fun p => (p.name.valueD, p.ty.ty),
          (B (st.enter name params)).2.scopes.current?.getD .empty,
          (B (st.enter name params)).1⟩ := by
  have hdeclared := ScopeStack.extends_declareProcedure hst.ne_nil name
  obtain ⟨scope, hscopes, hexternals, hprocedures, hsound, hparams⟩ := enter_scopes hst name params
  have hinner := hbody _ hsound
  -- The body declares only in the scope that was opened for it, so that one goes when it is left and
  -- those below are as the declaration of the procedure made them.
  obtain ⟨frame, hfinal, hframe⟩ : ∃ frame : Scope,
      (B (st.enter name params)).2.scopes.scopes =
        frame :: (st.scopes.declareProcedure name).2.scopes ∧
      scope.entries <:+ frame.entries := by
    have hstages := hinner.growth.grows.stages
    have houter := hinner.growth.grows.outer
    rw [hscopes] at hstages houter
    cases hfinal : (B (st.enter name params)).2.scopes.scopes with
    | nil => simp [hfinal, ScopeStack.Stages] at hstages
    | cons frame outer =>
      rw [hfinal] at hstages houter
      have houter : outer = (st.scopes.declareProcedure name).2.scopes := houter
      exact ⟨frame, by rw [houter], (List.forall₂_cons.mp hstages).1⟩
  have hleft : (B (st.enter name params)).2.leave.scopes.scopes =
      (st.scopes.declareProcedure name).2.scopes := by
    simp [Static.leave, ScopeStack.exitProcedure, ScopeStack.closeScope, hfinal]
  have hlaid := hinner.growth.laidOut hsound.laidOut
  rw [hfinal] at hlaid
  refine ⟨hdeclared.trans ⟨⟨?_, ?_, ?_, ?_⟩, ?_⟩, ?_⟩
  · rw [hleft]
    exact .refl _
  · rw [hleft]
  · rw [← hexternals]
    exact hinner.growth.grows.externals
  · have hnames := hinner.growth.grows.procedures
    rw [hprocedures] at hnames
    simp [Static.leave, ScopeStack.exitProcedure, ScopeStack.closeScope, hnames]
  · rw [hleft]
    exact id
  · intro externals chain hpast
    have hstages := hpast.stages
    rw [hleft] at hstages
    have hdepth : (st.scopes.declareProcedure name).2.scopes.length = chain.length :=
      hstages.length_eq
    have hcurrent : (B (st.enter name params)).2.scopes.current?.getD .empty = frame := by
      simp [ScopeStack.current?, hfinal]
    simp only [Routine.Under, hcurrent]
    refine ⟨⟨hdepth ▸ hlaid.1, ?_⟩, hinner.under externals (frame :: chain) ⟨?_, hpast.externals⟩⟩
    · intro k name' ty hparam
      rw [List.getElem?_map] at hparam
      obtain ⟨p, hp, hpair⟩ := Option.map_eq_some_iff.mp hparam
      cases hpair
      rw [← hdepth]
      exact hframe.mem (hparams k p hp)
    · rw [hfinal]
      exact .cons List.suffix_rfl hstages

mutual

theorem Procedure.elaborate_settles : ∀ (p : Procedure) (st : Static), st.scopes.Sound →
    SettledUnder st.scopes (p.elaborate st).2.scopes fun externals chain =>
      (p.elaborate st).1.Under externals chain
  | .mk _ name _ params _ _ body _, _, hst =>
      settledUnder_enter (elaborateBody_settles body) name.valueD (Separated.toList? params) hst

theorem elaborateBody_settles : ∀ items : List BodyItem, SettlesBody (elaborateBody items)
  | [], _, _ => ⟨.refl _, fun _ _ _ => trivial⟩
  | .declaration d :: more, st, hst =>
      have hfirst := (d.elaborate_settles st hst.ne_nil).under
      hfirst.append (elaborateBody_settles more _ (hfirst.growth.sound hst))
  | .statement s :: more, st, hst =>
      have hfirst := (s.elaborate_settles st hst.ne_nil).under
      hfirst.append (elaborateBody_settles more _ (hfirst.growth.sound hst))
  | .nested p :: more, st, hst => by
      have hfirst := p.elaborate_settles st hst
      have hrest := elaborateBody_settles more _ (hfirst.growth.sound hst)
      refine ⟨hfirst.growth.trans hrest.growth, fun externals chain hpast => ?_⟩
      obtain ⟨hframe, hinner⟩ := hfirst.under externals chain (hrest.growth.grows.past hpast)
      exact ⟨hframe, hinner, hrest.under externals chain hpast⟩
  | .skipped _ :: more, _, hst => elaborateBody_settles more _ hst

end

/-! ## Programs -/

theorem External.extends_declare (e : External) (st : Static) :
    st.scopes.Extends (e.declare st).scopes := by
  cases e with
  | missing keyword next => exact .refl _
  | const keyword constant ty name semicolon => exact ScopeStack.extends_declareExternal _ _ _ _
  | procedure keyword mark name params semicolon =>
    cases params <;> exact ScopeStack.extends_declareExternal _ _ _ _
  | vars keyword ty names semicolon =>
    have hnames : ∀ (names : List Terminal) (st : Static), st.scopes.Extends
        (names.foldl (fun st name => st.declareExternal name .var ty.ty) st).scopes := by
      intro names
      induction names with
      | nil => exact fun _ => .refl _
      | cons name names ih =>
        intro st
        exact (ScopeStack.extends_declareExternal st.scopes name.valueD .var ty.ty).trans
          (ih (st.declareExternal name .var ty.ty))
    exact hnames names.toList st

theorem ProgramItem.elaborate_settles (item : ProgramItem) {st : Static} (hst : st.scopes.Sound) :
    SettledUnder st.scopes (item.elaborate st).2.scopes fun externals chain =>
      ∀ part ∈ (item.elaborate st).1, part.Under externals chain := by
  cases item with
  | declaration d =>
    have hd := (d.elaborate_settles st hst.ne_nil).under
    refine ⟨hd.growth, fun externals chain hpast => ?_⟩
    simpa [ProgramItem.elaborate, Part.Under] using hd.under externals chain hpast
  | procedure p =>
    have hp := p.elaborate_settles st hst
    refine ⟨hp.growth, fun externals chain hpast => ?_⟩
    simpa [ProgramItem.elaborate, Part.Under] using hp.under externals chain hpast
  | external e => exact ⟨e.extends_declare st, fun _ _ _ => by simp [ProgramItem.elaborate]⟩
  | skipped token => exact ⟨.refl _, fun _ _ _ => by simp [ProgramItem.elaborate]⟩

theorem elaborateItems_settles (items : List ProgramItem) (st : Static) (hst : st.scopes.Sound) :
    SettledUnder st.scopes (elaborateItems items st).2.scopes fun externals chain =>
      ∀ part ∈ (elaborateItems items st).1, part.Under externals chain := by
  induction items generalizing st with
  | nil => exact ⟨.refl _, fun _ _ _ => by simp [elaborateItems]⟩
  | cons item more ih =>
    have hfirst := item.elaborate_settles hst
    have hboth := hfirst.append (ih _ (hfirst.growth.sound hst))
    refine ⟨hboth.growth, fun externals chain hpast => ?_⟩
    obtain ⟨hitem, hmore⟩ := hboth.under externals chain hpast
    intro part hpart
    rcases List.mem_append.mp hpart with hpart | hpart
    · exact hitem part hpart
    · exact hmore part hpart

/-- The outermost scope of a program is the only one that is open at its end. -/
theorem Program.elaborate_settles (p : Program) :
    ∃ globals : Scope, p.elaborate.2.scopes.scopes = [globals] ∧ LaidOut 0 globals.entries ∧
      ∀ part ∈ p.elaborate.1, part.Under p.elaborate.2.scopes.externals [globals] := by
  have hsound : ScopeStack.empty.openScope.Sound :=
    ⟨by simp [ScopeStack.openScope], trivial, trivial⟩
  have hsettled := elaborateItems_settles p.items ⟨_, .empty, .empty⟩ hsound
  have houter := hsettled.growth.grows.outer
  have hlaid := hsettled.growth.laidOut hsound.laidOut
  have hne := hsettled.growth.grows.ne_nil hsound.ne_nil
  obtain ⟨globals, hglobals⟩ : ∃ globals : Scope, p.elaborate.2.scopes.scopes = [globals] := by
    cases hscopes : p.elaborate.2.scopes.scopes with
    | nil => exact absurd hscopes hne
    | cons globals outer =>
      have hnil : outer = [] := by
        have htail : p.elaborate.2.scopes.scopes.tail = [] := houter
        simpa [hscopes] using htail
      exact ⟨globals, by rw [hnil]⟩
  have hlaid : LaidOutStack p.elaborate.2.scopes.scopes := hlaid
  rw [hglobals] at hlaid
  refine ⟨globals, hglobals, hlaid.1, hsettled.under _ _ ⟨?_, List.suffix_rfl⟩⟩
  change ScopeStack.Stages p.elaborate.2.scopes.scopes [globals]
  rw [hglobals]
  exact .refl _

end SlotLang
