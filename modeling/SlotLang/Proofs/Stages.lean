import SlotLang.Proofs.ProgramLandmarks

/-!
# What holds at every place of a program

Procedures and switches are closed in the order in which they were opened, so the landmarks of a
program are nested.  Following nested landmarks, the scopes outside of the innermost one stay as they
are, and at the end the same procedures and switches are open as at the start.  This makes a few
properties hold at every place of every program: the scopes are laid out, no struct is larger than
the limit, and the scope of the program is an earlier stage of what it will be in the end.
-/

namespace SlotLang

open Aggregate

/-! ## Struct tables -/

/-- The table comes from definitions one after the other, with everything left out of them that does
not fit. -/
inductive Aggregate.StructTable.Grown : StructTable → Prop where
  | empty : Grown .empty
  | define {table : StructTable} (h : Grown table) (layout : Layout) :
      Grown (table.define (layout.build table))

/-- The struct is not larger than the limit, and it consists of variables. -/
structure Aggregate.StructDef.Modest (d : StructDef) : Prop where
  size : d.members.length ≤ elementLimit
  stored : d.IsStored

theorem Component.members_stored {structs : StructTable} (h : ∀ d ∈ structs.defs, d.Modest)
    (c : Component) : ∀ m ∈ c.members structs, m.kind.hasStorage = true := by
  intro m hm
  unfold Component.members DeclaredTy.members at hm
  split at hm
  · obtain ⟨name, -, rfl⟩ := List.mem_map.mp hm
    rfl
  · split at hm
    next d hd =>
      obtain ⟨owner, -, hm⟩ := List.mem_flatMap.mp hm
      exact (h d (List.mem_of_find?_eq_some hd)).stored.instanceMembers owner m hm
    next => simp at hm

theorem Component.length_members {structs : StructTable} {c : Component} {width : Nat}
    (h : c.ty.width? structs = some width) :
    (c.members structs).length = elementCount c.bounds * width := by
  rw [Component.members, DeclaredTy.length_members h, length_allElements]

namespace Aggregate.StructDef.Modest

variable {structs : StructTable}

theorem extend (hstructs : ∀ d ∈ structs.defs, d.Modest) {d : StructDef} (h : d.Modest)
    (c : Component) : (d.extend structs c).Modest := by
  unfold StructDef.extend
  split
  next => exact h
  next hfits =>
    simp only [DeclaredTy.Overfills, not_or, not_exists, not_and] at hfits
    obtain ⟨-, hwidth, hsum⟩ := hfits
    obtain ⟨width, hwidth⟩ := Option.ne_none_iff_exists'.mp hwidth
    refine ⟨?_, List.forall_mem_append.mpr ⟨h.stored, c.members_stored hstructs⟩⟩
    rw [List.length_append, Component.length_members hwidth]
    exact Nat.not_lt.mp (hsum width hwidth)

theorem build (hstructs : ∀ d ∈ structs.defs, d.Modest) (layout : Layout) :
    (layout.build structs).Modest := by
  have hfoldl : ∀ (components : List Component) (d : StructDef), d.Modest →
      (components.foldl (StructDef.extend structs) d).Modest := by
    intro components
    induction components with
    | nil => exact fun _ h => h
    | cons c components ih => exact fun d h => ih _ (h.extend hstructs c)
  exact hfoldl layout.components (.new layout.name) ⟨Nat.zero_le _, by simp [IsStored, new]⟩

end Aggregate.StructDef.Modest

theorem Aggregate.StructTable.Grown.modest {table : StructTable} (h : table.Grown) :
    ∀ d ∈ table.defs, d.Modest := by
  induction h with
  | empty => simp [StructTable.empty]
  | @define table _ layout ih =>
    unfold StructTable.define
    split
    · exact ih
    · exact List.forall_mem_cons.mpr ⟨.build ih layout, ih⟩

/-! ## Scopes -/

namespace ScopeStack

/-- The scope of the program. -/
def globals (st : ScopeStack) : Scope := st.global?.getD .empty

/-- Scopes inside of a program: they are laid out, a symbol of the program's own storage is a constant
or a variable, and there is one scope for the program and one for each open procedure. -/
structure Fit (st : ScopeStack) : Prop extends st.Sound where
  placed : ∀ scope ∈ st.scopes, ∀ s ∈ scope.entries, s.frameDepth = 0 → s.kind.hasStorage = true
  opened : st.scopes.length = st.openProcedures.length + 1

/-- The scope of the program and the external names are earlier stages of what they are later. -/
structure Leads (st later : ScopeStack) : Prop where
  globals : st.globals.entries <:+ later.globals.entries
  externals : st.externals.entries <:+ later.externals.entries

theorem Leads.refl (st : ScopeStack) : st.Leads st := ⟨List.suffix_rfl, List.suffix_rfl⟩

theorem Leads.trans {st st₁ st₂ : ScopeStack} (h₁ : st.Leads st₁) (h₂ : st₁.Leads st₂) :
    st.Leads st₂ :=
  ⟨h₁.globals.trans h₂.globals, h₁.externals.trans h₂.externals⟩

theorem Stages.getLast {scopes later : List Scope} (h : Stages scopes later) :
    (scopes.getLast?.getD .empty).entries <:+ (later.getLast?.getD .empty).entries := by
  induction h with
  | nil => exact List.suffix_rfl
  | @cons scope grown scopes later hhead htail ih =>
    cases htail with
    | nil => exact hhead
    | cons => simpa [List.getLast?_cons_cons] using ih

theorem Grows.leads {st st' : ScopeStack} (h : st.Grows st') : st.Leads st' :=
  ⟨h.stages.getLast, h.externals⟩

variable {scope : Scope} {outer : List Scope} {externals : Scope} {procedures : List String}

theorem Fit.push (h : Fit ⟨scope :: outer, externals, procedures⟩) {s : Symbol}
    (hs : s.kind.hasStorage = true → s.frameDepth = outer.length ∧ s.offset = some scope.slots)
    (hplaced : s.frameDepth = 0 → s.kind.hasStorage = true) :
    Fit ⟨scope.push s :: outer, externals, procedures⟩ := by
  refine ⟨⟨by simp, Scope.laidOut_push h.laidOut.1 hs, h.laidOut.2⟩, ?_, h.opened⟩
  have hscopes := List.forall_mem_cons.mp h.placed
  exact List.forall_mem_cons.mpr ⟨List.forall_mem_cons.mpr ⟨hplaced, hscopes.1⟩, hscopes.2⟩

variable {st : ScopeStack}

theorem Fit.declareStorage (h : st.Fit) (name : String) {kind : SymbolKind}
    (hkind : kind.hasStorage = true) (ty : Ty) : (st.declareStorage name kind ty).2.Fit := by
  obtain ⟨_ | ⟨scope, outer⟩, externals, procedures⟩ := st
  · exact absurd rfl h.ne_nil
  · rw [declareStorage_cons]
    exact h.push (fun _ => ⟨rfl, rfl⟩) fun _ => hkind

theorem Fit.declareAll (h : st.Fit) {members : List Member}
    (hmembers : ∀ m ∈ members, m.kind.hasStorage = true) : (st.declareAll members).Fit := by
  induction members generalizing st with
  | nil => exact h
  | cons m members ih =>
    obtain ⟨hm, hmembers⟩ := List.forall_mem_cons.mp hmembers
    exact ih (h.declareStorage m.path hm m.ty) hmembers

/-- The scope that a procedure opens, with the procedure declared in the scope around it. -/
theorem enterProcedure_cons (scope : Scope) (outer : List Scope) (externals : Scope)
    (procedures : List String) (name : String) :
    ((declareProcedure ⟨scope :: outer, externals, procedures⟩ name).2.enterProcedure name).2 =
      ⟨.empty :: scope.push ⟨name, .procedure, .undefined, outer.length + 1, none⟩ :: outer, externals,
        name :: procedures⟩ := by
  rw [declareProcedure_cons]
  rfl

theorem Fit.enterProcedure (h : st.Fit) (name : String) :
    ((st.declareProcedure name).2.enterProcedure name).2.Fit := by
  obtain ⟨_ | ⟨scope, outer⟩, externals, procedures⟩ := st
  · exact absurd rfl h.ne_nil
  · have hdeclared : Fit ⟨scope.push ⟨name, .procedure, .undefined, outer.length + 1, none⟩ :: outer,
        externals, procedures⟩ :=
      h.push (fun hstorage => by cases hstorage) (fun hdepth => by cases hdepth)
    rw [enterProcedure_cons]
    refine ⟨⟨by simp, trivial, hdeclared.laidOut⟩, ?_, congrArg (· + 1) hdeclared.opened⟩
    exact List.forall_mem_cons.mpr ⟨by simp [Scope.empty], hdeclared.placed⟩

theorem leads_openScope (h : st.scopes ≠ []) (procedures : List String) :
    st.Leads ⟨.empty :: st.scopes, st.externals, procedures⟩ := by
  obtain ⟨scope, outer, hscopes⟩ := List.exists_cons_of_ne_nil h
  refine ⟨?_, List.suffix_rfl⟩
  simp [globals, global?, hscopes, List.getLast?_cons_cons]

theorem leads_enterProcedure (h : st.scopes ≠ []) (name : String) :
    st.Leads ((st.declareProcedure name).2.enterProcedure name).2 := by
  have hdeclared := (extends_declareProcedure h name).grows
  exact hdeclared.leads.trans (leads_openScope (hdeclared.ne_nil h) _)

theorem Fit.exitProcedure (h : st.Fit) (hnested : st.scopes.tail ≠ []) :
    st.exitProcedure.2.Fit ∧ st.Leads st.exitProcedure.2 := by
  obtain ⟨_ | ⟨scope, _ | ⟨next, outer⟩⟩, externals, procedures⟩ := st
  · exact absurd rfl hnested
  · exact absurd rfl hnested
  · refine ⟨⟨⟨by simp [ScopeStack.exitProcedure, closeScope], h.laidOut.2⟩,
      (List.forall_mem_cons.mp h.placed).2, ?_⟩, ?_, List.suffix_rfl⟩
    · have hopened := h.opened
      change (next :: outer).length = procedures.tail.length + 1
      simp only [List.length_cons, List.length_tail] at hopened ⊢
      omega
    · simp [globals, global?, ScopeStack.exitProcedure, closeScope, List.getLast?_cons_cons]

/-- The scope of a procedure is closed, and the procedure stays declared. -/
theorem Extends.exitProcedure (h : st.scopes ≠ []) {name : String} {inside : ScopeStack}
    (hinside : ((st.declareProcedure name).2.enterProcedure name).2.Extends inside)
    (hfit : inside.Fit) :
    (inside.exitProcedure.2.Fit ∧ inside.Leads inside.exitProcedure.2) ∧
      st.Extends inside.exitProcedure.2 := by
  have hdeclared := extends_declareProcedure h name
  have htail : inside.scopes.tail = (st.declareProcedure name).2.scopes := hinside.grows.outer
  have hexit := hfit.exitProcedure (htail ▸ hdeclared.grows.ne_nil h)
  have hstages : Stages st.scopes inside.scopes.tail := htail ▸ hdeclared.grows.stages
  refine ⟨hexit, ⟨hstages, ?_, ?_, ?_⟩, fun _ => hexit.1.laidOut⟩
  · exact (congrArg List.tail htail).trans hdeclared.grows.outer
  · exact hdeclared.grows.externals.trans hinside.grows.externals
  · have hprocedures := congrArg List.tail hinside.grows.procedures
    exact hprocedures.trans hdeclared.grows.procedures

end ScopeStack

/-! ## Nested landmarks -/

/-- Landmarks that neither open nor close anything. -/
def Landmark.isFlat : Landmark → Bool
  | .enter _ | .leave | .subject _ | .settled => false
  | _ => true

/-- What is opened is closed again, in the opposite order. -/
inductive Nested : List Landmark → Prop where
  | nil : Nested []
  | flat {l : Landmark} (h : l.isFlat = true) : Nested [l]
  | append {first second : List Landmark} (hfirst : Nested first) (hsecond : Nested second) :
      Nested (first ++ second)
  | procedure {name : String} {inside : List Landmark} (h : Nested inside) :
      Nested (.enter name :: (inside ++ [.leave]))
  | switch {references : List Reference} {inside : List Landmark} (h : Nested inside) :
      Nested (.subject references :: (inside ++ [.settled]))

namespace Nested

theorem cons {l : Landmark} (hl : l.isFlat = true) {more : List Landmark} (h : Nested more) :
    Nested (l :: more) :=
  append (flat hl) h

theorem all {landmarks : List Landmark} (h : ∀ l ∈ landmarks, l.isFlat = true) :
    Nested landmarks := by
  induction landmarks with
  | nil => exact .nil
  | cons l landmarks ih =>
    obtain ⟨hl, hlandmarks⟩ := List.forall_mem_cons.mp h
    exact .cons hl (ih hlandmarks)

theorem flatMap {α : Type} {f : α → List Landmark} {items : List α} (h : ∀ a ∈ items, Nested (f a)) :
    Nested (items.flatMap f) := by
  induction items with
  | nil => exact .nil
  | cons a items ih =>
    obtain ⟨ha, hitems⟩ := List.forall_mem_cons.mp h
    exact .append ha (ih hitems)

theorem refer (references : List Reference) : Nested (references.map .refer) :=
  .all (by simp [Landmark.isFlat])

end Nested

theorem Declaration.landmarks_nested (d : Declaration) : Nested d.landmarks := by
  cases d with
  | const keyword entries semicolon =>
    refine .flatMap fun entry _ => ?_
    unfold ConstEntry.landmarks
    split
    · exact .cons rfl (.refer _)
    · exact .nil
  | vars spec declarators semicolon =>
    refine .flatMap fun d _ => ?_
    unfold Declarator.landmarks
    split
    · exact .flat rfl
    · exact .nil
  | structDef keyword name opening items closing semicolon => exact .flat rfl

mutual

theorem Stmt.landmarks_nested : ∀ s : Stmt, Nested s.landmarks
  | .missing _ | .broken _ | .dangling _ _ => .nil
  | .assign _ _ _ _ | .choose _ _ _ _ _ _ _ _ | .call _ _ _ _ _ | .read _ _ _ | .write _ _ _ =>
    .refer _
  | .branch _ _ body => .append (.refer _) body.landmarks_nested
  | .branchElse _ _ body _ alternative =>
    .append (.refer _) (.append body.landmarks_nested alternative.landmarks_nested)
  | .whileLoop _ _ body => .append (.refer _) body.landmarks_nested
  | .forLoop _ _ _ _ _ _ _ _ body => .append (.refer _) body.landmarks_nested
  | .switch _ _ _ _ _ cases _ fallbackBody _ =>
    .switch (.append (casesLandmarks_nested cases) (stmtsLandmarks_nested fallbackBody))
  | .block _ items _ => blockLandmarks_nested items

theorem stmtsLandmarks_nested : ∀ stmts : List Stmt, Nested (stmtsLandmarks stmts)
  | [] => .nil
  | s :: more => .append s.landmarks_nested (stmtsLandmarks_nested more)

theorem casesLandmarks_nested : ∀ cases : List Case, Nested (casesLandmarks cases)
  | [] => .nil
  | .mk _ _ _ body :: more =>
    .append (.cons rfl (.append (.refer _) (stmtsLandmarks_nested body))) (casesLandmarks_nested more)

theorem blockLandmarks_nested : ∀ items : List BlockItem, Nested (blockLandmarks items)
  | [] => .nil
  | item :: more => .append item.landmarks_nested (blockLandmarks_nested more)

theorem BlockItem.landmarks_nested : ∀ item : BlockItem, Nested item.landmarks
  | .declaration d => d.landmarks_nested
  | .statement s => s.landmarks_nested
  | .skipped _ => .nil

end

mutual

theorem Procedure.landmarks_nested : ∀ p : Procedure, Nested p.landmarks
  | .mk _ _ _ params _ _ body _ =>
    .procedure (.append (.flatMap fun p _ => .all (by simp [Param.landmarks, Landmark.isFlat]))
      (.append (.all (by simp [argumentLandmarks, Landmark.isFlat])) (bodyLandmarks_nested body)))

theorem bodyLandmarks_nested : ∀ items : List BodyItem, Nested (bodyLandmarks items)
  | [] => .nil
  | item :: more => .append item.landmarks_nested (bodyLandmarks_nested more)

theorem BodyItem.landmarks_nested : ∀ item : BodyItem, Nested item.landmarks
  | .declaration d => d.landmarks_nested
  | .statement s => s.landmarks_nested
  | .nested p => p.landmarks_nested
  | .skipped _ => .nil

end

theorem Program.landmarks_nested (p : Program) : Nested p.landmarks := by
  refine .flatMap fun item _ => ?_
  cases item with
  | declaration d => exact d.landmarks_nested
  | procedure p => exact p.landmarks_nested
  | external e =>
    have hname (name : Terminal) (kind : SymbolKind) (ty : Ty) :
        Nested (externalLandmarks name kind ty) :=
      .all (by simp [externalLandmarks, Landmark.isFlat])
    cases e with
    | vars keyword spec names semicolon => exact .flatMap fun name _ => hname name _ _
    | const keyword constant spec name semicolon => exact hname name _ _
    | procedure keyword mark name params semicolon => exact hname name _ _
    | missing keyword next => exact .nil
  | skipped token => exact .nil

/-! ## Following nested landmarks -/

/-- The access was made for a name inside of a program, further up than these scopes. -/
def Access.MadeBefore (st : ScopeStack) : Access → Prop
  | load u | store u => u.scopes.Fit ∧ u.scopes.Leads st
  | argument _ => True

theorem Access.MadeBefore.later {st st' : ScopeStack} {a : Access} (h : a.MadeBefore st)
    (hleads : st.Leads st') : a.MadeBefore st' := by
  cases a with
  | load u => exact ⟨h.1, h.2.trans hleads⟩
  | store u => exact ⟨h.1, h.2.trans hleads⟩
  | argument k => trivial

theorem Reference.accesses_madeBefore {st : ScopeStack} (h : st.Fit) (r : Reference) :
    ∀ a ∈ r.accesses st, a.MadeBefore st := by
  intro a ha
  cases r with
  | load name =>
    simp only [Reference.accesses] at ha
    split at ha
    · split at ha
      · obtain rfl := List.mem_singleton.mp ha
        exact ⟨h, .refl st⟩
      · simp at ha
    · simp at ha
  | store name =>
    simp only [Reference.accesses] at ha
    split at ha
    · obtain rfl := List.mem_singleton.mp ha
      exact ⟨h, .refl st⟩
    · simp at ha

namespace Stage

/-- A stage that a program can be in. -/
structure Fit (s : Stage) : Prop where
  scopes : s.scopes.Fit
  structs : s.structs.Grown
  subjects : ∀ accesses ∈ s.subjects, ∀ a ∈ accesses, a.MadeBefore s.scopes

theorem start_fit : start.Fit where
  scopes := ⟨⟨by simp [start, ScopeStack.openScope], trivial, trivial⟩,
    by simp [start, ScopeStack.openScope, ScopeStack.empty, Scope.empty], rfl⟩
  structs := .empty
  subjects := by simp [start]

/-- The second stage comes from the first one by declarations in the innermost scope and of external
names, and of structs. -/
structure Reaches (s s' : Stage) : Prop where
  fit : s'.Fit
  growth : s.scopes.Extends s'.scopes
  subjects : s'.subjects = s.subjects

variable {s s₁ s₂ : Stage}

theorem Reaches.trans (h₁ : s.Reaches s₁) (h₂ : s₁.Reaches s₂) : s.Reaches s₂ :=
  ⟨h₂.fit, h₁.growth.trans h₂.growth, h₂.subjects.trans h₁.subjects⟩

theorem Reaches.leads (h : s.Reaches s₁) : s.scopes.Leads s₁.scopes := h.growth.grows.leads

/-- New declarations in the scopes. -/
theorem Fit.reaches_scopes (h : s.Fit) {scopes : ScopeStack} (hfit : scopes.Fit)
    (hgrowth : s.scopes.Extends scopes) : s.Reaches { s with scopes := scopes } where
  fit := ⟨hfit, h.structs, fun accesses haccesses a ha =>
    (h.subjects accesses haccesses a ha).later hgrowth.grows.leads⟩
  growth := hgrowth
  subjects := rfl

theorem Fit.reaches_step (h : s.Fit) {l : Landmark} (hl : l.isFlat = true) :
    s.Reaches (s.step l) := by
  have hne := h.scopes.ne_nil
  cases l with
  | refer r => exact ⟨h, .refl _, rfl⟩
  | argument k => exact ⟨h, .refl _, rfl⟩
  | again => exact ⟨h, .refl _, rfl⟩
  | constant name ty =>
    exact h.reaches_scopes (h.scopes.declareStorage name rfl ty)
      (ScopeStack.extends_declareStorage hne name .const ty)
  | declare c =>
    by_cases hover : c.ty.Oversized s.structs c.bounds
    · rw [step, if_pos hover]
      exact ⟨h, .refl _, rfl⟩
    · rw [step, if_neg hover]
      exact h.reaches_scopes (h.scopes.declareAll (c.members_stored h.structs.modest))
        (ScopeStack.extends_declareAll hne _)
  | define layout =>
    exact ⟨⟨h.scopes, h.structs.define layout, h.subjects⟩, .refl _, rfl⟩
  | parameter name ty =>
    rw [step, ScopeStack.declareLocal_eq_declareStorage hne]
    exact h.reaches_scopes (h.scopes.declareStorage name rfl ty)
      (ScopeStack.extends_declareStorage hne name .var ty)
  | external name kind ty =>
    refine h.reaches_scopes ?_ (ScopeStack.extends_declareExternal s.scopes name kind ty)
    exact ⟨⟨hne, h.scopes.laidOut⟩, h.scopes.placed, h.scopes.opened⟩
  | enter name => cases hl
  | leave => cases hl
  | subject references => cases hl
  | settled => cases hl

theorem Fit.step_enter (h : s.Fit) (name : String) :
    (s.step (.enter name)).Fit ∧ s.scopes.Leads (s.step (.enter name)).scopes := by
  have hleads := ScopeStack.leads_enterProcedure h.scopes.ne_nil name
  exact ⟨⟨h.scopes.enterProcedure name, h.structs, fun accesses haccesses a ha =>
    (h.subjects accesses haccesses a ha).later hleads⟩, hleads⟩

/-- What was declared inside of a procedure is gone behind it. -/
theorem Fit.reaches_leave (h : s.Fit) {name : String}
    (hinside : (s.step (.enter name)).Reaches s₁) :
    s.Reaches (s₁.step .leave) ∧ s₁.scopes.Leads (s₁.step .leave).scopes := by
  obtain ⟨hexit, hgrowth⟩ :=
    ScopeStack.Extends.exitProcedure h.scopes.ne_nil hinside.growth hinside.fit.scopes
  refine ⟨⟨⟨hexit.1, hinside.fit.structs, fun accesses haccesses a ha => ?_⟩, hgrowth,
    hinside.subjects⟩, hexit.2⟩
  exact (hinside.fit.subjects accesses haccesses a ha).later hexit.2

theorem Fit.step_subject (h : s.Fit) (references : List Reference) :
    (s.step (.subject references)).Fit := by
  refine ⟨h.scopes, h.structs, List.forall_mem_cons.mpr ⟨fun a ha => ?_, h.subjects⟩⟩
  obtain ⟨r, -, ha⟩ := List.mem_flatMap.mp ha
  exact r.accesses_madeBefore h.scopes a ha

theorem Nested.reaches {landmarks : List Landmark} (hnested : Nested landmarks) :
    ∀ {s : Stage}, s.Fit → s.Reaches (s.run landmarks) := by
  induction hnested with
  | nil => exact fun h => ⟨h, .refl _, rfl⟩
  | flat hl => exact fun h => h.reaches_step hl
  | append _ _ ihfirst ihsecond =>
    intro s h
    rw [run_append]
    exact (ihfirst h).trans (ihsecond (ihfirst h).fit)
  | @procedure name inside _ ih =>
    intro s h
    rw [run_cons, run_append]
    exact (h.reaches_leave (ih (h.step_enter name).1)).1
  | @switch references inside _ ih =>
    intro s h
    obtain ⟨hfit, hgrowth, hsubjects⟩ := ih (h.step_subject references)
    rw [run_cons, run_append]
    refine ⟨⟨hfit.scopes, hfit.structs, fun accesses haccesses => ?_⟩, hgrowth, ?_⟩
    · exact hfit.subjects accesses (List.mem_of_mem_tail haccesses)
    · exact congrArg List.tail hsubjects

/-- A place from which the program goes on to these scopes. -/
structure OnTheWay (final : ScopeStack) (s : Stage) : Prop where
  fit : s.Fit
  leads : s.scopes.Leads final

theorem Nested.along {landmarks : List Landmark} (hnested : Nested landmarks) :
    ∀ {s : Stage} {final : ScopeStack}, s.Fit → (s.run landmarks).scopes.Leads final →
      s.Along (fun t _ => t.OnTheWay final) landmarks := by
  induction hnested with
  | nil => exact fun _ _ => trivial
  | flat hl => exact fun h hfinal => ⟨⟨h, (h.reaches_step hl).leads.trans hfinal⟩, trivial⟩
  | append hfirst hsecond ihfirst ihsecond =>
    intro s final h hfinal
    have hreaches := Nested.reaches hfirst h
    rw [run_append] at hfinal
    rw [along_append]
    exact ⟨ihfirst h ((Nested.reaches hsecond hreaches.fit).leads.trans hfinal),
      ihsecond hreaches.fit hfinal⟩
  | @procedure name inside hinside ih =>
    intro s final h hfinal
    obtain ⟨hentered, henter⟩ := h.step_enter name
    have hreaches := Nested.reaches hinside hentered
    obtain ⟨hleaves, hleave⟩ := h.reaches_leave hreaches
    rw [run_cons, run_append] at hfinal
    have hlast := hleave.trans hfinal
    refine ⟨⟨h, henter.trans (hreaches.leads.trans hlast)⟩, ?_⟩
    rw [along_append]
    exact ⟨ih hentered hlast, ⟨hreaches.fit, hlast⟩, trivial⟩
  | @switch references inside hinside ih =>
    intro s final h hfinal
    have hreaches := Nested.reaches hinside (h.step_subject references)
    rw [run_cons, run_append] at hfinal
    refine ⟨⟨h, hreaches.leads.trans hfinal⟩, ?_⟩
    rw [along_append]
    exact ⟨ih (h.step_subject references) hfinal, ⟨hreaches.fit, hfinal⟩, trivial⟩

end Stage

/-- At every place of a program. -/
theorem Program.onTheWay (p : Program) {front back : List Landmark} (h : p.landmarks = front ++ back) :
    (Stage.start.run front).OnTheWay (Stage.start.run p.landmarks).scopes := by
  cases back with
  | nil =>
    rw [List.append_nil] at h
    rw [← h]
    exact ⟨(Stage.Nested.reaches p.landmarks_nested Stage.start_fit).fit, .refl _⟩
  | cons l back =>
    exact (Stage.Nested.along p.landmarks_nested Stage.start_fit (.refl _)).at_place h

end SlotLang
