import SlotLang.Proofs.Definitions

/-!
# Points of a program

Every call of a program, and every declaration of a procedure, stands at a point where the procedures
in the open scopes are known.  A statement declares no procedure, so all points inside it have the
same procedures in front of them; a procedure is known from its head on, its own body included.
-/

namespace SlotLang

open Aggregate Emitted

/-! ## Calls in the code of a phrase -/

/-- The name that an instruction calls, with the signatures that are known there. -/
def Emitted.call? (x : Emitted) : Option (Use × Signatures) :=
  match x.origin with
  | .call callee _ signatures => some (callee, signatures)
  | _ => none

@[simp] theorem call?_plain (op : Op) : (plain op).call? = none := rfl

@[simp] theorem call?_jump (n : Nat) : (jump n).call? = none := rfl

@[simp] theorem call?_jumpUnless (n : Nat) : (jumpUnless n).call? = none := rfl

@[simp] theorem call?_landing (n : Nat) : (landing n).call? = none := rfl

@[simp] theorem call?_load (u : Use) : (Emitted.load u).call? = none := rfl

@[simp] theorem call?_store (u : Use) : (Emitted.store u).call? = none := rfl

@[simp] theorem call?_argument (k : Nat) : (argument k).call? = none := rfl

@[simp] theorem call?_entry (r : Routine) : r.entry.call? = none := rfl

/-- All calls in the code have the property. -/
def Calls (P : Use → Signatures → Prop) (code : List Emitted) : Prop :=
  ∀ x ∈ code, ∀ callee signatures, x.call? = some (callee, signatures) → P callee signatures

section

variable {P : Use → Signatures → Prop}

@[simp] theorem calls_nil : Calls P [] := by
  simp [Calls]

@[simp] theorem calls_append {first second : List Emitted} :
    Calls P (first ++ second) ↔ Calls P first ∧ Calls P second :=
  List.forall_mem_append

@[simp] theorem calls_cons {x : Emitted} {code : List Emitted} : Calls P (x :: code) ↔
    (∀ callee signatures, x.call? = some (callee, signatures) → P callee signatures) ∧
      Calls P code :=
  List.forall_mem_cons

@[simp] theorem Term.code_calls (t : Term) : Calls P t.code := by
  induction t with
  | number | boolean | use => simp [Term.code]
  | negation operand ih => simp [Term.code, ih]
  | arithmetic op left right ihLeft ihRight | comparison op left right ihLeft ihRight =>
    simp [Term.code, ihLeft, ihRight]

@[simp] theorem calls_flatMap_code (terms : List Term) : Calls P (terms.flatMap Term.code) := by
  induction terms with
  | nil => simp
  | cons t terms ih => simp [ih]

@[simp] theorem calls_prologue (count : Nat) : Calls P (Routine.prologue count) := by
  intro x hx
  obtain ⟨k, -, rfl⟩ := List.mem_map.mp hx
  simp

theorem Calls.mono {Q : Use → Signatures → Prop} {code : List Emitted} (h : Calls P code)
    (himp : ∀ u signatures, P u signatures → Q u signatures) : Calls Q code :=
  fun x hx callee signatures hcall => himp _ _ (h x hx callee signatures hcall)

end

/-- The name stands at a point with these procedures in front of it. -/
def Traced (history : List Callable) (u : Use) (signatures : Signatures) : Prop :=
  ∃ st, Known history st ∧ st.scopes = u.scopes ∧ st.signatures = signatures

/-- A phrase that declares no procedure. -/
abbrev Follows (X : Static → Action × Static) : Prop :=
  ∀ history st, Known history st →
    Known history (X st).2 ∧ ∀ n, Calls (Traced history) ((X st).1.code n)

namespace Follows

variable {X Y : Static → Action × Static}

theorem of_calls {f : Static → Action}
    (h : ∀ history st, Known history st → ∀ n, Calls (Traced history) ((f st).code n)) :
    Follows fun st => (f st, st) :=
  fun history st hst => ⟨hst, h history st hst⟩

theorem seq (hX : Follows X) (hY : Follows Y) :
    Follows fun st => (.seq (X st).1 (Y (X st).2).1, (Y (X st).2).2) := by
  intro history st hst
  obtain ⟨hmid, hfirst⟩ := hX history st hst
  obtain ⟨hfinal, hsecond⟩ := hY history _ hmid
  exact ⟨hfinal, fun n => by simp [Action.code, hfirst, hsecond]⟩

theorem all {α : Type} {f : α → Static → Action × Static} (h : ∀ a, Follows (f a))
    (items : List α) : Follows (elaborateAll f items) := by
  induction items with
  | nil => exact of_calls fun _ _ _ _ => by simp [Action.code]
  | cons a items ih => exact (h a).seq ih

end Follows

theorem ConstEntry.elaborate_follows (entry : ConstEntry) : Follows entry.elaborate := by
  intro history st hst
  unfold ConstEntry.elaborate
  split
  next name value hname hvalue =>
    exact ⟨hst.declareStorage _ _ (by simp), fun n => by simp [Action.code]⟩
  next => exact ⟨hst, fun n => by simp [Action.code]⟩

theorem DeclaredTy.members_kind {structs : StructTable}
    (h : ∀ d ∈ structs.defs, ∀ m ∈ d.members, m.kind = .var) (ty : DeclaredTy)
    (names : List String) : ∀ m ∈ ty.members structs names, m.kind = .var := by
  intro m hm
  cases ty with
  | scalar ty =>
    obtain ⟨name, -, rfl⟩ := List.mem_map.mp hm
    rfl
  | struct structName =>
    simp only [DeclaredTy.members] at hm
    split at hm
    next d hd =>
      obtain ⟨name, -, hinstance⟩ := List.mem_flatMap.mp hm
      obtain ⟨member, hmember, rfl⟩ := List.mem_map.mp hinstance
      exact h d (List.mem_of_find?_eq_some hd) member hmember
    next => simp at hm

theorem Declaration.elaborate_follows (d : Declaration) : Follows d.elaborate := by
  cases d with
  | const keyword entries semicolon =>
    exact .all ConstEntry.elaborate_follows entries.toList
  | vars spec declarators semicolon =>
    refine .all (fun declarator history st hst => ⟨?_, fun n => ?_⟩) declarators.toList
    · exact hst.declareAll (DeclaredTy.members_kind hst.members _ _)
    · simp [Declarator.elaborate, Action.code]
  | structDef keyword name opening items closing semicolon =>
    intro history st hst
    refine ⟨hst.defineStruct ?_, fun n => by simp [Declaration.elaborate, Action.code]⟩
    intro m hm
    obtain ⟨item, -, hm⟩ := List.mem_flatMap.mp hm
    cases item with
    | skipped token => simp [StructItem.members] at hm
    | member spec name bounds semicolon =>
      exact DeclaredTy.members_kind hst.members _ _ m hm

mutual

theorem Stmt.elaborate_follows : ∀ s : Stmt, Follows s.elaborate
  | .missing _ | .broken _ | .dangling _ _ => Follows.of_calls fun _ _ _ _ => by simp [Action.code]
  | .assign _ _ _ _ | .choose _ _ _ _ _ _ _ _ | .read _ _ _ =>
      Follows.of_calls fun _ _ _ _ => by simp [Action.code]
  | .call callee _ _ _ _ => Follows.of_calls fun history st hst n => by
      have hcall : Traced history (callee.use st.scopes) st.signatures := ⟨st, hst, rfl, rfl⟩
      simpa [Action.code, Emitted.call?] using hcall
  | .branch _ _ body => fun history st hst => by
      obtain ⟨hfinal, hbody⟩ := body.elaborate_follows history st hst
      exact ⟨hfinal, fun n => by simp [Stmt.elaborate, Action.code, hbody]⟩
  | .branchElse _ _ body _ alternative => fun history st hst => by
      obtain ⟨hmid, hbody⟩ := body.elaborate_follows history st hst
      obtain ⟨hfinal, halternative⟩ := alternative.elaborate_follows history _ hmid
      exact ⟨hfinal, fun n => by simp [Stmt.elaborate, Action.code, hbody, halternative]⟩
  | .whileLoop _ _ body => fun history st hst => by
      obtain ⟨hfinal, hbody⟩ := body.elaborate_follows history st hst
      exact ⟨hfinal, fun n => by simp [Stmt.elaborate, Action.code, hbody]⟩
  | .forLoop _ _ _ _ _ _ _ _ body => fun history st hst => by
      obtain ⟨hfinal, hbody⟩ := body.elaborate_follows history st hst
      exact ⟨hfinal, fun n => by simp [Stmt.elaborate, Action.code, hbody]⟩
  | .switch _ _ _ _ _ cases _ fallbackBody _ => fun history st hst => by
      obtain ⟨hmid, hcases⟩ := elaborateCases_follows cases history st hst
      obtain ⟨hfinal, hfallback⟩ := elaborateStmts_follows fallbackBody history _ hmid
      exact ⟨hfinal, fun n => by simp [Stmt.elaborate, Action.code, hcases, hfallback]⟩
  | .write _ operands _ =>
      Follows.all (fun operand => Follows.of_calls fun _ _ _ _ => by simp [Action.code])
        operands.toList
  | .block _ items _ => elaborateBlock_follows items

theorem elaborateStmts_follows : ∀ stmts : List Stmt, Follows (elaborateStmts stmts)
  | [] => Follows.of_calls fun _ _ _ _ => by simp [Action.code]
  | s :: more => s.elaborate_follows.seq (elaborateStmts_follows more)

theorem elaborateCases_follows : ∀ (cases : List Case) (history : List Callable) (st : Static),
    Known history st → Known history (elaborateCases cases st).2 ∧
      ∀ subject exit n, Calls (Traced history) ((elaborateCases cases st).1.code subject exit n)
  | [], _, _, hst => ⟨hst, fun _ _ _ => by simp [elaborateCases, Cases.code]⟩
  | .mk _ _ _ body :: more, history, st, hst => by
      obtain ⟨hmid, hbody⟩ := elaborateStmts_follows body history st hst
      obtain ⟨hfinal, hmore⟩ := elaborateCases_follows more history _ hmid
      exact ⟨hfinal, fun _ _ _ => by simp [elaborateCases, Cases.code, hbody, hmore]⟩

theorem elaborateBlock_follows : ∀ items : List BlockItem, Follows (elaborateBlock items)
  | [] => Follows.of_calls fun _ _ _ _ => by simp [Action.code]
  | item :: more => item.elaborate_follows.seq (elaborateBlock_follows more)

theorem BlockItem.elaborate_follows : ∀ item : BlockItem, Follows item.elaborate
  | .declaration d => d.elaborate_follows
  | .statement s => s.elaborate_follows
  | .skipped _ => Follows.of_calls fun _ _ _ _ => by simp [Action.code]

end

/-! ## Procedures and programs -/

namespace Known

variable {history : List Callable} {st : Static}

/-- The declaration that a procedure head makes at this point. -/
theorem stands (h : Known history st) {name : String} (hname : IsProcedureName name)
    {d : Definition} (hsite : d.site = ⟨name, st.scopes⟩)
    (hlabel : d.routine.label = (st.scopes.declareProcedure name).2.labelFor name) :
    ∃ scope outer, st.scopes.scopes = scope :: outer ∧
      d.Stands scope.entries outer st.scopes.openProcedures := by
  obtain ⟨⟨_ | ⟨scope, outer⟩, externals, opened⟩, structs, signatures⟩ := st
  · exact absurd rfl h.ne_nil
  · refine ⟨scope, outer, rfl, ⟨⟨scope, by rw [hsite], rfl⟩, by rw [hsite], ?_, ?_⟩⟩
    · rw [hlabel, ScopeStack.declareProcedure_cons, Definition.path, hsite]
      rfl
    · rw [Definition.path, hsite]
      simpa [or_imp, forall_and] using ⟨h.names, hname⟩

theorem enter (h : Known history st) {name : String} (hname : IsProcedureName name)
    {params : List Param} {d : Definition} (hsite : d.site = ⟨name, st.scopes⟩)
    (hlabel : d.routine.label = (st.scopes.declareProcedure name).2.labelFor name)
    (hparams : d.routine.paramTypes = params.map (·.ty.ty)) :
    Known (history ++ [.procedure d]) (st.enter name params) := by
  obtain ⟨scope, outer, hscopes, hstands⟩ := h.stands hname hsite hlabel
  obtain ⟨⟨scopes, externals, opened⟩, structs, signatures⟩ := st
  have hscopes : scopes = scope :: outer := hscopes
  subst hscopes
  have hdefined := h.define hstands
  rw [show d.site.name = name by rw [hsite]] at hdefined
  have hopen := (hdefined.openBody rfl hname).declareParams params
  have hsignature : d.signature = ⟨name, params.map (·.ty.ty), .undefined⟩ := by
    rw [Definition.signature, hparams, hsite]
  rw [hsignature, hlabel] at hopen
  simp only [Static.enter, Static.declareParams, ScopeStack.enterProcedure, ScopeStack.openScope]
  rw [ScopeStack.declareProcedure_cons] at hopen ⊢
  exact hopen

theorem leave (h : Known history st) (hnested : st.scopes.scopes.tail ≠ []) :
    Known history st.leave := by
  obtain ⟨⟨scopes, externals, opened⟩, structs, signatures⟩ := st
  match scopes, opened with
  | [], _ => exact absurd rfl h.ne_nil
  | [_], _ => exact absurd rfl hnested
  | body :: scope :: outer, [] => exact h.opened.elim
  | body :: scope :: outer, name :: opened => exact h.closeBody

end Known

/-- The name stands at a point of the program that has these procedures altogether. -/
def Reached (all : List Callable) (u : Use) (signatures : Signatures) : Prop :=
  ∃ history, history <+: all ∧ Traced history u signatures

/-- What is known behind a phrase that declares the procedures `found`, and about the points inside
it. -/
structure Walked (all history : List Callable) (final : Static) (found : List Callable)
    (code : Nat → List Emitted) : Prop where
  known : Known (history ++ found) final
  calls : ∀ n, Calls (Reached all) (code n)
  sites : ∀ d, .procedure d ∈ found → (∃ signatures, Reached all d.site signatures) ∧
    ∃ older outer opened, d.Stands older outer opened

section

variable {all history : List Callable}

theorem Walked.of_follows {X : Static → Action × Static} (hX : Follows X) {st : Static}
    (hst : Known history st) (hall : history <+: all) :
    Walked all history (X st).2 [] fun n => (X st).1.code n where
  known := by
    rw [List.append_nil]
    exact (hX history st hst).1
  calls n := ((hX history st hst).2 n).mono fun _ _ htraced => ⟨history, hall, htraced⟩
  sites := by simp

theorem Walked.append {mid final : Static} {found more : List Callable}
    {first second both : Nat → List Emitted} (h₁ : Walked all history mid found first)
    (h₂ : Walked all (history ++ found) final more second)
    (hcode : ∀ n, ∃ m k, both n = first m ++ second k) :
    Walked all history final (found ++ more) both where
  known := by
    rw [← List.append_assoc]
    exact h₂.known
  calls n := by
    obtain ⟨m, k, hboth⟩ := hcode n
    rw [hboth, calls_append]
    exact ⟨h₁.calls m, h₂.calls k⟩
  sites d hd := by
    rcases List.mem_append.mp hd with hd | hd
    · exact h₁.sites d hd
    · exact h₂.sites d hd

theorem Walked.around {final : Static} {found : List Callable} {code : Nat → List Emitted}
    (h : Walked all history final found code) (r : Routine) :
    Walked all history final found fun n => r.around (code n) :=
  ⟨h.known, fun n => by simp [Routine.around, h.calls n], h.sites⟩

/-- A procedure, from what is known about its body. -/
theorem Walked.procedure {B : Static → Body × Static} {name : String} (hname : IsProcedureName name)
    {params : List Param} {found : List Callable} {st : Static} (hst : Known history st)
    (hsound : st.scopes.Sound) (hgrows : SettlesBody B) {r : Routine}
    (hlabel : r.label = (st.scopes.declareProcedure name).2.labelFor name)
    (hparams : r.paramTypes = params.map (·.ty.ty))
    (hbody : ∀ history', Known history' (st.enter name params) → history' ++ found <+: all →
      Walked all history' (B (st.enter name params)).2 found
        fun n => (B (st.enter name params)).1.code n)
    (hall : history ++ (.procedure ⟨⟨name, st.scopes⟩, r⟩ :: found) <+: all) :
    Walked all history (B (st.enter name params)).2.leave
      (.procedure ⟨⟨name, st.scopes⟩, r⟩ :: found)
      fun n => r.around ((B (st.enter name params)).1.code n) := by
  have henter := hst.enter (d := ⟨⟨name, st.scopes⟩, r⟩) hname rfl hlabel hparams
  have hwalked := hbody _ henter (by simpa using hall)
  refine ⟨?_, (hwalked.around r).calls, ?_⟩
  · obtain ⟨scope, hscopes, -, -, hinside, -⟩ := enter_scopes hsound name params
    have houter := (hgrows _ hinside).growth.grows.outer
    rw [hscopes] at houter
    have hdeclared := (ScopeStack.extends_declareProcedure hsound.ne_nil name).grows.ne_nil
      hsound.ne_nil
    have hknown := hwalked.known.leave (by rw [houter]; exact hdeclared)
    rwa [List.append_assoc] at hknown
  · intro d hd
    rcases List.mem_cons.mp hd with heq | hd
    · cases heq
      obtain ⟨scope, outer, -, hstands⟩ := hst.stands (d := ⟨⟨name, st.scopes⟩, r⟩) hname rfl hlabel
      exact ⟨⟨st.signatures, history, (List.prefix_append _ _).trans hall, st, hst, rfl, rfl⟩,
        _, _, _, hstands⟩
    · exact hwalked.sites d hd

mutual

theorem Procedure.elaborate_walks : ∀ (p : Procedure) (history : List Callable) (st : Static),
    p.Named IsProcedureName → st.scopes.Sound → Known history st →
    history ++ (p.definitions st).map .procedure <+: all →
    Walked all history (p.elaborate st).2 ((p.definitions st).map .procedure)
      fun n => (p.elaborate st).1.around ((p.elaborate st).1.body.code n)
  | .mk _ name _ params _ _ body _, history, st, hnamed, hsound, hst, hall => by
      obtain ⟨-, -, -, -, hinside, -⟩ := enter_scopes hsound name.valueD (Separated.toList? params)
      refine Walked.procedure hnamed.1 hst hsound (elaborateBody_settles body) rfl ?_ ?_ hall
      · simp [Routine.paramTypes, Procedure.elaborate]
      · exact fun history' henter hfound =>
          elaborateBody_walks body history' _ hnamed.2 hinside henter hfound

theorem elaborateBody_walks : ∀ (items : List BodyItem) (history : List Callable) (st : Static),
    bodyNamed IsProcedureName items → st.scopes.Sound → Known history st →
    history ++ (bodyDefinitions items st).map .procedure <+: all →
    Walked all history (elaborateBody items st).2 ((bodyDefinitions items st).map .procedure)
      fun n => (elaborateBody items st).1.code n
  | [], history, st, _, _, hst, _ => ⟨by simpa [bodyDefinitions, elaborateBody] using hst,
      fun n => by simp [elaborateBody, Body.code], by simp [bodyDefinitions]⟩
  | .declaration d :: more, history, st, hnamed, hsound, hst, hall => by
      have hfirst := Walked.of_follows d.elaborate_follows hst ((List.prefix_append _ _).trans hall)
      have hgrown := (d.elaborate_settles st hsound.ne_nil).growth.sound hsound
      have hrest := elaborateBody_walks more history _ hnamed.2 hgrown
        (d.elaborate_follows history st hst).1 hall
      rw [← List.append_nil history] at hrest
      exact hfirst.append hrest fun n => ⟨n, _, rfl⟩
  | .statement s :: more, history, st, hnamed, hsound, hst, hall => by
      have hfirst := Walked.of_follows s.elaborate_follows hst ((List.prefix_append _ _).trans hall)
      have hgrown := (s.elaborate_settles st hsound.ne_nil).growth.sound hsound
      have hrest := elaborateBody_walks more history _ hnamed.2 hgrown
        (s.elaborate_follows history st hst).1 hall
      rw [← List.append_nil history] at hrest
      exact hfirst.append hrest fun n => ⟨n, _, rfl⟩
  | .nested p :: more, history, st, hnamed, hsound, hst, hall => by
      simp only [bodyDefinitions, List.map_append] at hall ⊢
      rw [← List.append_assoc] at hall
      have hfirst := p.elaborate_walks history st hnamed.1 hsound hst
        ((List.prefix_append _ _).trans hall)
      have hgrown := (p.elaborate_settles st hsound).growth.sound hsound
      have hrest := elaborateBody_walks more _ _ hnamed.2 hgrown hfirst.known hall
      refine ⟨by simpa [elaborateBody] using hrest.known, fun n => ?_, fun d hd => ?_⟩
      · simpa [elaborateBody, Body.code] using ⟨hfirst.calls _, hrest.calls _⟩
      · rcases List.mem_append.mp hd with hd | hd
        · exact hfirst.sites d hd
        · exact hrest.sites d hd
  | .skipped _ :: more, history, st, hnamed, hsound, hst, hall =>
      elaborateBody_walks more history st hnamed.2 hsound hst hall

end

theorem External.declare_known (e : External) (he : e.Named IsProcedureName) {st : Static}
    (hst : Known history st) : Known (history ++ e.callables) (e.declare st) := by
  cases e with
  | missing keyword next => simpa [callables, declare] using hst
  | const keyword constant ty name semicolon =>
    simpa [callables, declare] using hst.declareExternal name ty.ty (by simp)
  | vars keyword ty names semicolon =>
    have hnames : ∀ (names : List Terminal) (st : Static), Known history st →
        Known history (names.foldl (fun st name => st.declareExternal name .var ty.ty) st) := by
      intro names
      induction names with
      | nil => exact fun _ h => h
      | cons name names ih => exact fun _ h => ih _ (h.declareExternal name ty.ty (by simp))
    simpa [callables, declare] using hnames names.toList st hst
  | procedure keyword mark name params semicolon =>
    cases params with
    | none => exact hst.declareUnchecked name
    | some params => exact hst.declareChecked he _

theorem ProgramItem.elaborate_walks (item : ProgramItem) (hnamed : item.Named IsProcedureName)
    {st : Static} (hsound : st.scopes.Sound) (hst : Known history st)
    (hall : history ++ item.callables st <+: all) :
    Walked all history (item.elaborate st).2 (item.callables st)
      fun n => partsCode (item.elaborate st).1 n := by
  cases item with
  | declaration d =>
    have hd := Walked.of_follows d.elaborate_follows hst ((List.prefix_append _ _).trans hall)
    exact ⟨hd.known, fun n => by simpa [elaborate, partsCode, Part.code] using hd.calls n, hd.sites⟩
  | procedure p =>
    have hp := p.elaborate_walks history st hnamed hsound hst hall
    exact ⟨hp.known, fun n => by simpa [elaborate, partsCode, Part.code] using hp.calls n, hp.sites⟩
  | external e =>
    refine ⟨e.declare_known hnamed hst, fun n => by simp [ProgramItem.elaborate, partsCode], ?_⟩
    intro d hd
    cases e <;> simp [callables, External.callables] at hd
  | skipped token =>
    exact ⟨by simpa [callables, elaborate] using hst,
      fun n => by simp [ProgramItem.elaborate, partsCode], by simp [ProgramItem.callables]⟩

theorem elaborateItems_walks (items : List ProgramItem)
    (hnamed : ∀ item ∈ items, item.Named IsProcedureName) {st : Static}
    (hsound : st.scopes.Sound) (hst : Known history st)
    (hall : history ++ itemsCallables items st <+: all) :
    Walked all history (elaborateItems items st).2 (itemsCallables items st)
      fun n => partsCode (elaborateItems items st).1 n := by
  induction items generalizing history st with
  | nil =>
    exact ⟨by simpa [itemsCallables, elaborateItems] using hst,
      fun n => by simp [elaborateItems, partsCode], by simp [itemsCallables]⟩
  | cons item more ih =>
    obtain ⟨hitem, hmore⟩ := List.forall_mem_cons.mp hnamed
    rw [itemsCallables, ← List.append_assoc] at hall
    have hfirst := item.elaborate_walks hitem hsound hst ((List.prefix_append _ _).trans hall)
    have hgrown := (item.elaborate_settles hsound).growth.sound hsound
    have hrest := ih hmore hgrown hfirst.known hall
    refine hfirst.append hrest fun n => ⟨n, n + partsLabels (item.elaborate st).1, ?_⟩
    simp [elaborateItems, partsCode_append]

end

/-- In front of every declaration and at every call of a program the procedures in the open scopes
are known. -/
theorem Program.walked (p : Program) (hnamed : ∀ item ∈ p.items, item.Named IsProcedureName) :
    Calls (Reached p.callables) p.code ∧
      ∀ d ∈ p.definitions, (∃ signatures, Reached p.callables d.site signatures) ∧
        ∃ older outer opened, d.Stands older outer opened := by
  have hsound : ScopeStack.empty.openScope.Sound :=
    ⟨by simp [ScopeStack.openScope], trivial, trivial⟩
  have hstart : Known [] ⟨ScopeStack.empty.openScope, .empty, .empty⟩ := by
    refine ⟨by simp [ScopeStack.openScope], trivial, by simp [ScopeStack.openScope, ScopeStack.empty],
      by simp [StructTable.empty], by simp [ScopeStack.openScope, ScopeStack.empty, Scope.empty], ?_⟩
    rintro inside newer s older outer ⟨scope, hscopes, hentries⟩ -
    have hempty : scope ∈ [Scope.empty] := by
      have hmem : scope ∈ inside ++ scope :: outer := by simp
      rwa [← hscopes] at hmem
    rw [List.mem_singleton.mp hempty] at hentries
    simp [Scope.empty] at hentries
  have hall : [] ++ p.callables <+: p.callables := List.prefix_rfl
  have hwalked := elaborateItems_walks p.items hnamed hsound hstart hall
  refine ⟨hwalked.calls 0, fun d hd => hwalked.sites d ?_⟩
  obtain ⟨r, hr, hdefinition⟩ := List.mem_filterMap.mp hd
  cases r with
  | external name types => simp [Callable.definition?] at hdefinition
  | procedure d' =>
    cases hdefinition
    exact hr

end SlotLang
