import SlotLang.Proofs.CallPoints

/-!
# Initial values of constants

A constant gets its value where it is declared.  This module lists the stores that come from such
declarations, and compares the list with two others.  The first has the constants of a scope, in the
order of their declarations: each of them has one store in the list, which is placed right behind its
declaration.  The second has the stores in the code of a phrase whose names denote constants: if the
phrase is well typed there are no others, because statements store into variables only.
-/

namespace SlotLang

open Aggregate Emitted

/-! ## Constants of a scope -/

/-- The constants of a scope, in the order of their declarations. -/
def Scope.constants (scope : Scope) : List Symbol := scope.symbols.filter (·.kind = .const)

@[simp] theorem Scope.constants_empty : Scope.empty.constants = [] := rfl

theorem Scope.constants_push (scope : Scope) (s : Symbol) :
    (scope.push s).constants = scope.constants ++ if s.kind = .const then [s] else [] := by
  simp only [constants, symbols_push, List.filter_append, List.filter_cons, List.filter_nil,
    decide_eq_true_eq]

/-- The constants that are declared in the innermost scope. -/
def ScopeStack.constants (st : ScopeStack) : List Symbol := (st.current?.getD .empty).constants

theorem ScopeStack.constants_cons (scope : Scope) (outer : List Scope) (externals : Scope)
    (opened : List String) :
    constants ⟨scope :: outer, externals, opened⟩ = scope.constants := rfl

/-- The name stands right behind its own declaration as the constant `s`. -/
def Use.Sets (u : Use) (s : Symbol) : Prop :=
  ∃ (scope : Scope) (outer : List Scope) (ty : Ty),
    s = ⟨u.name, .const, ty, outer.length, some scope.slots⟩ ∧
      u.scopes.scopes = scope.push s :: outer

theorem Use.Sets.target {u : Use} {s : Symbol} (h : u.Sets s) : u.target? = some ⟨s, false⟩ := by
  obtain ⟨scope, outer, ty, rfl, hscopes⟩ := h
  rw [target?, ScopeStack.resolve_eq_some_iff]
  exact .declared (hscopes.trans (List.nil_append _).symm) (by simp)
    ⟨rfl, [], scope.entries, rfl, by simp⟩

/-! ## Stores of declarations -/

mutual

/-- The names that the declarations of constants in an action store into. -/
def Action.initials : Action → List Use
  | .store kind target _ => if kind = .const then [target] else []
  | .skip | .choose _ _ _ _ | .call _ _ _ | .read _ | .write _ => []
  | .seq first second => first.initials ++ second.initials
  | .branch _ body alternative => body.initials ++ alternative.initials
  | .loop _ body | .rounds _ _ _ body => body.initials
  | .switch _ cases fallback => cases.initials ++ fallback.initials

def Cases.initials : Cases → List Use
  | .none => []
  | .case _ body rest => body.initials ++ rest.initials

end

/-- Those of the routine itself, without the routines inside it. -/
def Body.initials : Body → List Use
  | .done => []
  | .action a rest => a.initials ++ rest.initials
  | .nested _ _ _ _ rest => rest.initials

def Part.initials : Part → List Use
  | .action a => a.initials
  | .routine _ => []

/-! ## Elaboration -/

/-- The members of structs are variables. -/
def Static.Plain (st : Static) : Prop := ∀ d ∈ st.structs.defs, ∀ m ∈ d.members, m.kind = .var

/-- A phrase leads from one meaning of names to another, and the constants that it declares are those
which its initial stores set, in this order. -/
structure Initialized (st final : Static) (initials : List Use) : Prop where
  plain : final.Plain
  constants : ∃ new, final.scopes.constants = st.scopes.constants ++ new ∧
    List.Forall₂ Use.Sets initials new

namespace Initialized

variable {st st₁ final : Static} {first second : List Use}

theorem refl (h : st.Plain) : Initialized st st [] := ⟨h, [], by simp, .nil⟩

theorem append (h₁ : Initialized st st₁ first) (h₂ : Initialized st₁ final second) :
    Initialized st final (first ++ second) := by
  obtain ⟨new₁, hnew₁, hsets₁⟩ := h₁.constants
  obtain ⟨new₂, hnew₂, hsets₂⟩ := h₂.constants
  exact ⟨h₂.plain, new₁ ++ new₂, by rw [hnew₂, hnew₁, List.append_assoc],
    List.rel_append hsets₁ hsets₂⟩

/-- Nothing but the scopes changes, and no constant is declared. -/
theorem of_scopes (h : st.Plain) {scopes : ScopeStack}
    (hscopes : scopes.constants = st.scopes.constants) :
    Initialized st { st with scopes := scopes } [] :=
  ⟨h, [], by simpa using hscopes, .nil⟩

end Initialized

abbrev Initializes (X : Static → Action × Static) : Prop :=
  ∀ st : Static, st.scopes.scopes ≠ [] → st.Plain → Initialized st (X st).2 (X st).1.initials

theorem ScopeStack.constants_declareStorage {st : ScopeStack} (hne : st.scopes ≠ [])
    (name : String) {kind : SymbolKind} (ty : Ty) (hkind : kind ≠ .const) :
    (st.declareStorage name kind ty).2.constants = st.constants := by
  obtain ⟨_ | ⟨scope, outer⟩, externals, opened⟩ := st
  · simp at hne
  · simp [declareStorage_cons, constants_cons, Scope.constants_push, hkind]

theorem ScopeStack.constants_declareAll {st : ScopeStack} (hne : st.scopes ≠ [])
    {members : List Member} (h : ∀ m ∈ members, m.kind = .var) :
    (st.declareAll members).constants = st.constants := by
  induction members generalizing st with
  | nil => rfl
  | cons m members ih =>
    have hkind : m.kind ≠ .const := by simp [h m List.mem_cons_self]
    have hgrows := (extends_declareStorage hne m.path m.kind m.ty).grows
    refine (ih (hgrows.ne_nil hne) fun other hother => h other (List.mem_cons_of_mem _ hother)).trans ?_
    exact constants_declareStorage hne _ _ hkind

namespace Initializes

variable {X Y : Static → Action × Static}

/-- A statement that declares nothing. -/
theorem of_nil {f : Static → Action} (h : ∀ st, (f st).initials = []) :
    Initializes fun st => (f st, st) := by
  intro st _ hplain
  rw [h]
  exact .refl hplain

theorem seq (hX : Initializes X) (hsettles : Settles X) (hY : Initializes Y) :
    Initializes fun st => (.seq (X st).1 (Y (X st).2).1, (Y (X st).2).2) := by
  intro st hne hplain
  have hfirst := hX st hne hplain
  exact hfirst.append (hY _ ((hsettles st hne).growth.grows.ne_nil hne) hfirst.plain)

theorem all {α : Type} {f : α → Static → Action × Static} (h : ∀ a, Initializes (f a))
    (hsettles : ∀ a, Settles (f a)) (items : List α) : Initializes (elaborateAll f items) := by
  induction items with
  | nil => exact of_nil fun _ => rfl
  | cons a items ih => exact (h a).seq (hsettles a) ih

end Initializes

theorem ConstEntry.elaborate_initializes (entry : ConstEntry) : Initializes entry.elaborate := by
  intro st hne hplain
  unfold ConstEntry.elaborate
  split
  next name becomes value hname hvalue =>
    obtain ⟨⟨_ | ⟨scope, outer⟩, externals, opened⟩, structs, signatures⟩ := st
    · simp at hne
    · refine ⟨hplain, [⟨name, .const, entry.ty.ty, outer.length, some scope.slots⟩], ?_, ?_⟩
      · simp [ScopeStack.declareStorage_cons, ScopeStack.constants_cons, Scope.constants_push]
      · refine .cons ⟨scope, outer, entry.ty.ty, rfl, ?_⟩ .nil
        rw [ScopeStack.declareStorage_cons]
  next => exact .refl hplain

theorem Declaration.elaborate_initializes (d : Declaration) : Initializes d.elaborate := by
  cases d with
  | const keyword entries semicolon =>
    exact .all ConstEntry.elaborate_initializes ConstEntry.elaborate_settles entries.toList
  | vars spec declarators semicolon =>
    refine .all ?_ (Declarator.elaborate_settles spec.declared) declarators.toList
    intro declarator st hne hplain
    exact .of_scopes hplain
      (ScopeStack.constants_declareAll hne (DeclaredTy.members_kind hplain _ _))
  | structDef keyword name opening items closing semicolon =>
    intro st _ hplain
    refine ⟨?_, [], (List.append_nil _).symm, .nil⟩
    intro d hd m hm
    simp only [Declaration.elaborate, StructTable.define] at hd
    split at hd
    · exact hplain d hd m hm
    rcases List.mem_cons.mp hd with rfl | hd
    · obtain ⟨item, -, hm⟩ := List.mem_flatMap.mp hm
      cases item with
      | skipped token => simp [StructItem.members] at hm
      | member spec name bounds semicolon => exact DeclaredTy.members_kind hplain _ _ m hm
    · exact hplain d hd m hm

mutual

theorem Stmt.elaborate_initializes : ∀ s : Stmt, Initializes s.elaborate
  | .missing _ | .broken _ | .dangling _ _ | .assign _ _ _ _ | .choose _ _ _ _ _ _ _ _
  | .call _ _ _ _ _ | .read _ _ _ => Initializes.of_nil fun _ => rfl
  | .branch _ _ body => fun st hne hplain => by
      simpa [Stmt.elaborate, Action.initials] using body.elaborate_initializes st hne hplain
  | .branchElse _ _ body _ alternative =>
      body.elaborate_initializes.seq body.elaborate_settles alternative.elaborate_initializes
  | .whileLoop _ _ body => body.elaborate_initializes
  | .forLoop _ _ _ _ _ _ _ _ body => body.elaborate_initializes
  | .switch _ _ _ _ _ cases _ fallbackBody _ => fun st hne hplain => by
      have hcases := elaborateCases_initializes cases st hne hplain
      have hne' := (elaborateCases_settles cases st hne).growth.grows.ne_nil hne
      exact hcases.append (elaborateStmts_initializes fallbackBody _ hne' hcases.plain)
  | .write _ operands _ =>
      Initializes.all (fun operand => Initializes.of_nil fun _ => rfl)
        (fun operand => Settles.of_uses fun _ _ hP => operand.term_uses hP) operands.toList
  | .block _ items _ => elaborateBlock_initializes items

theorem elaborateStmts_initializes : ∀ stmts : List Stmt, Initializes (elaborateStmts stmts)
  | [] => Initializes.of_nil fun _ => rfl
  | s :: more => s.elaborate_initializes.seq s.elaborate_settles (elaborateStmts_initializes more)

theorem elaborateCases_initializes : ∀ (cases : List Case) (st : Static), st.scopes.scopes ≠ [] →
    st.Plain → Initialized st (elaborateCases cases st).2 (elaborateCases cases st).1.initials
  | [], _, _, hplain => .refl hplain
  | .mk _ _ _ body :: more, st, hne, hplain => by
      have hbody := elaborateStmts_initializes body st hne hplain
      have hne' := (elaborateStmts_settles body st hne).growth.grows.ne_nil hne
      exact hbody.append (elaborateCases_initializes more _ hne' hbody.plain)

theorem elaborateBlock_initializes : ∀ items : List BlockItem, Initializes (elaborateBlock items)
  | [] => Initializes.of_nil fun _ => rfl
  | item :: more =>
      item.elaborate_initializes.seq item.elaborate_settles (elaborateBlock_initializes more)

theorem BlockItem.elaborate_initializes : ∀ item : BlockItem, Initializes item.elaborate
  | .declaration d => d.elaborate_initializes
  | .statement s => s.elaborate_initializes
  | .skipped _ => Initializes.of_nil fun _ => rfl

end

/-! ## Routines -/

/-- Every routine inside the body has the property. -/
def Body.Every (P : Routine → Prop) : Body → Prop
  | .done => True
  | .action _ rest => rest.Every P
  | .nested label params frame body rest =>
      (P ⟨label, params, frame, body⟩ ∧ body.Every P) ∧ rest.Every P

def Part.Every (P : Routine → Prop) : Part → Prop
  | .action _ => True
  | .routine r => P r ∧ r.body.Every P

/-- The constants of the frame are set by the declarations of the routine. -/
def Routine.SetsConstants (r : Routine) : Prop :=
  List.Forall₂ Use.Sets r.body.initials r.frame.constants

theorem ScopeStack.constants_congr {st st' : ScopeStack} (h : st.scopes = st'.scopes) :
    st.constants = st'.constants := by
  simp only [constants, current?, h]

theorem ScopeStack.constants_declareProcedure {st : ScopeStack} (hne : st.scopes ≠ [])
    (name : String) : (st.declareProcedure name).2.constants = st.constants := by
  obtain ⟨_ | ⟨scope, outer⟩, externals, opened⟩ := st
  · simp at hne
  · simp [declareProcedure_cons, constants_cons, Scope.constants_push]

theorem constants_declareParams (params : List Param) {st : ScopeStack} (hne : st.scopes ≠ []) :
    (params.foldl Param.declare st).constants = st.constants := by
  induction params generalizing st with
  | nil => rfl
  | cons p params ih =>
    obtain ⟨_ | ⟨scope, outer⟩, externals, opened⟩ := st
    · simp at hne
    · rw [List.foldl_cons, Param.declare, ScopeStack.declareLocal_cons, ih (by simp)]
      simp [ScopeStack.constants_cons, Scope.constants_push]

theorem constants_enter (st : Static) (name : String) (params : List Param) :
    (st.enter name params).scopes.constants = [] :=
  constants_declareParams params (by simp [ScopeStack.enterProcedure, ScopeStack.openScope])

mutual

theorem Procedure.elaborate_initializes : ∀ (p : Procedure) (st : Static), st.scopes.Sound →
    st.Plain → Initialized st (p.elaborate st).2 [] ∧
      (Part.routine (p.elaborate st).1).Every Routine.SetsConstants
  | .mk keyword name opening params closing brace body closingBrace, st, hst, hplain => by
      obtain ⟨scope, hscopes, -, -, hsound, -⟩ :=
        enter_scopes hst name.valueD (Separated.toList? params)
      obtain ⟨hbody, hinside⟩ := elaborateBody_initializes body _ hsound hplain
      obtain ⟨new, hnew, hsets⟩ := hbody.constants
      rw [constants_enter, List.nil_append] at hnew
      have hgrows := (elaborateBody_settles body _ hsound).growth.grows
      -- What is left of the scopes when the procedure is closed has its symbol, and nothing else new.
      have hleft : ((Procedure.mk keyword name opening params closing brace body
          closingBrace).elaborate st).2.scopes.scopes =
            (st.scopes.declareProcedure name.valueD).2.scopes := by
        refine Eq.trans hgrows.outer ?_
        rw [hscopes]
        rfl
      refine ⟨⟨hbody.plain, [], ?_, .nil⟩, ?_, hinside⟩
      · rw [List.append_nil, ScopeStack.constants_congr hleft,
          ScopeStack.constants_declareProcedure hst.ne_nil]
      · rw [← hnew] at hsets
        exact hsets

theorem elaborateBody_initializes : ∀ (items : List BodyItem) (st : Static), st.scopes.Sound →
    st.Plain → Initialized st (elaborateBody items st).2 (elaborateBody items st).1.initials ∧
      (elaborateBody items st).1.Every Routine.SetsConstants
  | [], _, _, hplain => ⟨.refl hplain, trivial⟩
  | .declaration d :: more, st, hst, hplain => by
      have hfirst := d.elaborate_initializes st hst.ne_nil hplain
      have hsound := (d.elaborate_settles st hst.ne_nil).growth.sound hst
      obtain ⟨hmore, hinside⟩ := elaborateBody_initializes more _ hsound hfirst.plain
      exact ⟨hfirst.append hmore, hinside⟩
  | .statement s :: more, st, hst, hplain => by
      have hfirst := s.elaborate_initializes st hst.ne_nil hplain
      have hsound := (s.elaborate_settles st hst.ne_nil).growth.sound hst
      obtain ⟨hmore, hinside⟩ := elaborateBody_initializes more _ hsound hfirst.plain
      exact ⟨hfirst.append hmore, hinside⟩
  | .nested p :: more, st, hst, hplain => by
      obtain ⟨hfirst, hroutine⟩ := p.elaborate_initializes st hst hplain
      have hsound := (p.elaborate_settles st hst).growth.sound hst
      obtain ⟨hmore, hinside⟩ := elaborateBody_initializes more _ hsound hfirst.plain
      exact ⟨hfirst.append hmore, hroutine, hinside⟩
  | .skipped _ :: more, st, hst, hplain => elaborateBody_initializes more st hst hplain

end

/-! ## Programs -/

theorem External.declare_structs (e : External) (st : Static) :
    (e.declare st).structs = st.structs ∧ (e.declare st).scopes.scopes = st.scopes.scopes := by
  cases e with
  | missing keyword next => exact ⟨rfl, rfl⟩
  | const keyword constant ty name semicolon => exact ⟨rfl, rfl⟩
  | procedure keyword mark name params semicolon => cases params <;> exact ⟨rfl, rfl⟩
  | vars keyword ty names semicolon =>
    simp only [External.declare]
    generalize names.toList = names
    induction names generalizing st with
    | nil => exact ⟨rfl, rfl⟩
    | cons name names ih => exact ih (st.declareExternal name .var ty.ty)

theorem ProgramItem.elaborate_initializes (item : ProgramItem) {st : Static}
    (hst : st.scopes.Sound) (hplain : st.Plain) :
    Initialized st (item.elaborate st).2 ((item.elaborate st).1.flatMap Part.initials) ∧
      ∀ part ∈ (item.elaborate st).1, part.Every Routine.SetsConstants := by
  cases item with
  | declaration d =>
    simpa [ProgramItem.elaborate, Part.initials, Part.Every] using
      d.elaborate_initializes st hst.ne_nil hplain
  | procedure p =>
    simpa [ProgramItem.elaborate, Part.initials] using p.elaborate_initializes st hst hplain
  | external e =>
    obtain ⟨hstructs, hscopes⟩ := e.declare_structs st
    refine ⟨⟨?_, [], ?_, .nil⟩, by simp [ProgramItem.elaborate]⟩
    · rw [Static.Plain]
      exact hstructs ▸ hplain
    · rw [List.append_nil]
      exact ScopeStack.constants_congr hscopes
  | skipped token => exact ⟨.refl hplain, by simp [ProgramItem.elaborate]⟩

theorem elaborateItems_initializes (items : List ProgramItem) (st : Static)
    (hst : st.scopes.Sound) (hplain : st.Plain) :
    Initialized st (elaborateItems items st).2 ((elaborateItems items st).1.flatMap Part.initials) ∧
      ∀ part ∈ (elaborateItems items st).1, part.Every Routine.SetsConstants := by
  induction items generalizing st with
  | nil => exact ⟨.refl hplain, by simp [elaborateItems]⟩
  | cons item more ih =>
    obtain ⟨hfirst, hparts⟩ := item.elaborate_initializes hst hplain
    have hsound := (item.elaborate_settles hst).growth.sound hst
    obtain ⟨hmore, hothers⟩ := ih _ hsound hfirst.plain
    have hboth := hfirst.append hmore
    rw [← List.flatMap_append] at hboth
    exact ⟨hboth, List.forall_mem_append.mpr ⟨hparts, hothers⟩⟩

/-- The constants of a program are set by its declarations, and those of a routine by the declarations
of the routine. -/
theorem Program.elaborate_initializes (p : Program) :
    List.Forall₂ Use.Sets (p.parts.flatMap Part.initials) p.globals.constants ∧
      ∀ part ∈ p.parts, part.Every Routine.SetsConstants := by
  have hsound : ScopeStack.empty.openScope.Sound :=
    ⟨by simp [ScopeStack.openScope], trivial, trivial⟩
  have hplain : Static.Plain ⟨ScopeStack.empty.openScope, .empty, .empty⟩ := by
    simp [Static.Plain, StructTable.empty]
  obtain ⟨hinitialized, hparts⟩ := elaborateItems_initializes p.items ⟨_, .empty, .empty⟩ hsound hplain
  obtain ⟨new, hnew, hsets⟩ := hinitialized.constants
  obtain ⟨globals, hscopes, -, -⟩ := p.elaborate_settles
  have hglobals : p.globals.constants = p.elaborate.2.scopes.constants := by
    simp [Program.globals, final, ScopeStack.global?, ScopeStack.constants, ScopeStack.current?,
      hscopes]
  have hnew : p.elaborate.2.scopes.constants = new := hnew
  rw [hglobals, hnew]
  exact ⟨hsets, hparts⟩

/-! ## Stores in the code -/

def Op.isStore : Op → Bool
  | .store _ _ | .storeGlobal _ => true
  | _ => false

/-- The name that an instruction stores into, if the name denotes a constant. -/
def Emitted.constant? (x : Emitted) : Option Use :=
  match x.origin with
  | .use u =>
      if x.op.isStore && u.target?.any (·.symbol.kind = .const) then some u else none
  | _ => none

theorem Emitted.constant?_eq_some {x : Emitted} {u : Use} (h : x.constant? = some u) :
    x.origin = .use u ∧ x.op.isStore = true := by
  unfold constant? at h
  split at h
  next v hv =>
    split at h
    next hcond =>
      cases h
      exact ⟨hv, (Bool.and_eq_true_iff.mp hcond).1⟩
    next => cases h
  next => cases h

@[simp] theorem constant?_plain (op : Op) : (plain op).constant? = none := rfl

@[simp] theorem constant?_jump (n : Nat) : (jump n).constant? = none := rfl

@[simp] theorem constant?_jumpUnless (n : Nat) : (jumpUnless n).constant? = none := rfl

@[simp] theorem constant?_landing (n : Nat) : (landing n).constant? = none := rfl

@[simp] theorem constant?_argument (k : Nat) : (argument k).constant? = none := rfl

@[simp] theorem constant?_entry (r : Routine) : r.entry.constant? = none := rfl

@[simp] theorem constant?_load (u : Use) : (Emitted.load u).constant? = none := by
  have hop : (Emitted.load u).op.isStore = false := by
    simp only [Emitted.op, Emitted.load, Instruction.plain]
    cases u.cell <;> rfl
  simp only [Emitted.constant?, hop, Bool.false_and]
  rfl

theorem constant?_store (u : Use) : (Emitted.store u).constant? =
    if u.target?.any (·.symbol.kind = .const) then some u else none := by
  have hop : (Emitted.store u).op.isStore = true := by
    simp only [Emitted.op, Emitted.store, Instruction.plain]
    cases u.cell <;> rfl
  simp only [Emitted.constant?, hop, Bool.true_and]
  rfl

theorem Use.Denotes.constant?_store {u : Use} {kind : SymbolKind} {ty : Ty}
    (h : u.Denotes kind ty) :
    (Emitted.store u).constant? = if kind = .const then some u else none := by
  obtain ⟨target, htarget, rfl, -⟩ := h
  simp [SlotLang.constant?_store, htarget]

/-- The names of constants that a piece of code stores into. -/
def constantStores (code : List Emitted) : List Use := code.filterMap Emitted.constant?

@[simp] theorem constantStores_nil : constantStores [] = [] := rfl

@[simp] theorem constantStores_cons (x : Emitted) (code : List Emitted) :
    constantStores (x :: code) = x.constant?.toList ++ constantStores code := by
  cases hx : x.constant? <;> simp [constantStores, hx]

@[simp] theorem constantStores_append (first second : List Emitted) :
    constantStores (first ++ second) = constantStores first ++ constantStores second := by
  simp [constantStores]

@[simp] theorem Term.constantStores_code (t : Term) : constantStores t.code = [] := by
  induction t with
  | number | boolean | use => simp [Term.code]
  | negation operand ih => simp [Term.code, ih]
  | arithmetic op left right ihLeft ihRight | comparison op left right ihLeft ihRight =>
    simp [Term.code, ihLeft, ihRight]

@[simp] theorem constantStores_flatMap_code (terms : List Term) :
    constantStores (terms.flatMap Term.code) = [] := by
  induction terms with
  | nil => rfl
  | cons t terms ih => simp [ih]

@[simp] theorem constantStores_prologue (count : Nat) :
    constantStores (Routine.prologue count) = [] := by
  rw [constantStores, List.filterMap_eq_nil_iff]
  intro x hx
  obtain ⟨k, -, rfl⟩ := List.mem_map.mp hx
  rfl

mutual

/-- Only declarations store into constants. -/
theorem Action.constantStores_code : ∀ (a : Action) (n : Nat), a.WellTyped →
    constantStores (a.code n) = a.initials
  | .skip, _, _ => rfl
  | .store kind _ value, _, ⟨_, _, hdenotes, _⟩ => by
      by_cases hkind : kind = .const <;>
        simp [Action.code, Action.initials, hdenotes.constant?_store, hkind]
  | .choose _ _ _ _, _, ⟨_, hdenotes, _⟩ => by
      simp [Action.code, Action.initials, hdenotes.constant?_store]
  | .call _ _ _, _, _ => by simp [Action.code, Action.initials, Emitted.constant?]
  | .read _, _, hdenotes => by
      simp [Action.code, Action.initials, Use.Denotes.constant?_store hdenotes]
  | .write _, _, _ => by simp [Action.code, Action.initials]
  | .seq first second, _, ⟨hfirst, hsecond⟩ => by
      simp [Action.code, Action.initials, first.constantStores_code _ hfirst,
        second.constantStores_code _ hsecond]
  | .branch _ body alternative, _, ⟨_, hbody, halternative⟩ => by
      simp [Action.code, Action.initials, body.constantStores_code _ hbody,
        alternative.constantStores_code _ halternative]
  | .loop _ body, _, ⟨_, hbody⟩ => by
      simp [Action.code, Action.initials, body.constantStores_code _ hbody]
  | .rounds _ _ _ body, _, ⟨_, _, hdenotes, _, hbody⟩ => by
      simp [Action.code, Action.initials, hdenotes.constant?_store,
        body.constantStores_code _ hbody]
  | .switch subject cases fallback, _, ⟨_, _, hcases, hfallback⟩ => by
      simp [Action.code, Action.initials, cases.constantStores_code subject _ _ _ hcases,
        fallback.constantStores_code _ hfallback]

theorem Cases.constantStores_code : ∀ (cases : Cases) (subject : Term) (ty : Ty) (exit n : Nat),
    cases.WellTyped ty → constantStores (cases.code subject exit n) = cases.initials
  | .none, _, _, _, _, _ => rfl
  | .case _ body rest, subject, ty, _, _, ⟨_, hbody, hrest⟩ => by
      simp [Cases.code, Cases.initials, body.constantStores_code _ hbody,
        rest.constantStores_code subject ty _ _ hrest]

end

end SlotLang
