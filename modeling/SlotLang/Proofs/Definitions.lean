import SlotLang.Proofs.JumpTargets
import SlotLang.Proofs.StackEffect

/-!
# Procedure declarations

Two procedures of one name have the same symbol, so a symbol does not say which declaration it comes
from.  What tells declarations apart is the place where they stand: the scopes that are open in front
of them.  This module lists the declarations of a program in their order, with their places, and
follows them through elaboration.  At every point of a program the procedures in the open scopes are
traced back to declarations further up, and so are the signatures that are known for them.

Signatures are kept by label, and external procedures share that table.  So the signature which is
known for a visible procedure is its own, unless an external procedure of the same name was declared
behind it.
-/

namespace SlotLang

open Aggregate Emitted

/-- The declaration of a procedure: its name with the scopes in front of it, and its routine. -/
structure Definition where
  site : Use
  routine : Routine

/-- What can be called: a procedure, or an external one, which may come with its parameter types. -/
inductive Callable where
  | procedure (d : Definition)
  | external (name : String) (types : Option (List Ty))

def Callable.definition? : Callable → Option Definition
  | procedure d => some d
  | external _ _ => none

mutual

/-- A procedure and the procedures inside it, in the order of their heads. -/
def Procedure.definitions : Procedure → Static → List Definition
  | .mk keyword name opening params closing brace body closingBrace, st =>
      ⟨⟨name.valueD, st.scopes⟩, ((Procedure.mk keyword name opening params closing brace body
          closingBrace).elaborate st).1⟩ ::
        bodyDefinitions body (st.enter name.valueD (Separated.toList? params))

def bodyDefinitions : List BodyItem → Static → List Definition
  | [], _ => []
  | .declaration d :: more, st => bodyDefinitions more (d.elaborate st).2
  | .statement s :: more, st => bodyDefinitions more (s.elaborate st).2
  | .nested p :: more, st => p.definitions st ++ bodyDefinitions more (p.elaborate st).2
  | .skipped _ :: more, st => bodyDefinitions more st

end

def External.callables : External → List Callable
  | procedure _ _ name params _ =>
      [.external name.valueD
        (params.map fun params => (Separated.toList? params.types).map ScalarSpec.ty)]
  | vars _ _ _ _ | const _ _ _ _ _ | missing _ _ => []

def ProgramItem.callables : ProgramItem → Static → List Callable
  | procedure p, st => (p.definitions st).map .procedure
  | external e, _ => e.callables
  | declaration _, _ | skipped _, _ => []

def itemsCallables : List ProgramItem → Static → List Callable
  | [], _ => []
  | item :: more, st => item.callables st ++ itemsCallables more (item.elaborate st).2

namespace Program

/-- All procedures of a program, external ones included, in the order of their declarations. -/
def callables (p : Program) : List Callable :=
  itemsCallables p.items ⟨ScopeStack.empty.openScope, .empty, .empty⟩

/-- The procedure declarations of a program, in their order. -/
def definitions (p : Program) : List Definition :=
  p.callables.filterMap Callable.definition?

end Program

/-! ## Labels of procedures -/

theorem IsProcedureName.dollar_not_mem {name : String} (h : IsProcedureName name) :
    '$' ∉ name.toList := by
  rcases h with rfl | hword
  · simp
  · exact hword.dollar_not_mem

theorem joinNames_splitOn {names : List String} (hne : names ≠ [])
    (h : ∀ name ∈ names, IsProcedureName name) :
    (ScopeStack.joinNames names).toList.splitOn '$' = names.map String.toList := by
  have hchars : (ScopeStack.joinNames names).toList =
      ['$'].intercalate (names.map String.toList) := by
    rw [ScopeStack.joinNames, String.toList_intercalate]
    rfl
  rw [hchars]
  refine List.splitOn_intercalate '$' ?_ (by simpa using hne)
  intro chars hmem
  obtain ⟨name, hname, rfl⟩ := List.mem_map.mp hmem
  exact (h name hname).dollar_not_mem

/-- The names in a label can be read off it again. -/
theorem joinNames_inj {names names' : List String} (hne : names ≠ []) (hne' : names' ≠ [])
    (h : ∀ name ∈ names, IsProcedureName name) (h' : ∀ name ∈ names', IsProcedureName name)
    (heq : ScopeStack.joinNames names = ScopeStack.joinNames names') : names = names' := by
  have hparts := congrArg (fun label : String => label.toList.splitOn '$') heq
  simp only [joinNames_splitOn hne h, joinNames_splitOn hne' h'] at hparts
  exact List.map_injective_iff.mpr (fun _ _ => String.toList_inj.mp) hparts

namespace Signatures

theorem get?_register_self (table : Signatures) (label : String) (signature : Signature) :
    (table.register label signature).get? label = some signature := by
  simp [get?, register]

theorem get?_register_of_ne (table : Signatures) {label other : String} (signature : Signature)
    (h : other ≠ label) : (table.register label signature).get? other = table.get? other := by
  have hentries : ∀ entries : List (String × Signature),
      (entries.filter fun entry => decide (entry.1 ≠ label)).lookup other =
        entries.lookup other := by
    intro entries
    induction entries with
    | nil => rfl
    | cons entry entries ih =>
      by_cases hlabel : entry.1 = label
      · rw [List.filter_cons_of_neg (by simpa using hlabel), ih, List.lookup_cons]
        have hne : (other == entry.1) = false := by simpa [hlabel] using h
        rw [hne]
      · rw [List.filter_cons_of_pos (by simpa using hlabel), List.lookup_cons, List.lookup_cons, ih]
  have hne : (other == label) = false := by simpa using h
  simp only [get?, register, List.lookup_cons, hne]
  exact hentries table.entries

end Signatures

/-! ## Procedures in open scopes -/

/-- The symbol that a procedure has in a scope of this depth. -/
def procedureSymbol (name : String) (depth : Nat) : Symbol :=
  ⟨name, .procedure, .undefined, depth, none⟩

/-- The symbol stands in a scope of the stack, between newer and older ones. -/
def ScopeStack.Declares (st : ScopeStack) (inside : List Scope) (newer : List Symbol) (s : Symbol)
    (older : List Symbol) (outer : List Scope) : Prop :=
  ∃ scope : Scope, st.scopes = inside ++ scope :: outer ∧ scope.entries = newer ++ s :: older

/-- Every scope around the innermost one ends, for the time being, with the procedure that was opened
in it. -/
def Opened : List Scope → List String → Prop
  | [], [] => True
  | scope :: outer, name :: names =>
      (∃ older, scope.entries = procedureSymbol name (outer.length + 1) :: older) ∧
        Opened outer names
  | [], _ :: _ => False
  | _ :: _, [] => False

theorem Opened.length_eq {scopes : List Scope} {names : List String} (h : Opened scopes names) :
    scopes.length = names.length := by
  induction scopes generalizing names with
  | nil =>
    cases names with
    | nil => rfl
    | cons name names => exact h.elim
  | cons scope outer ih =>
    cases names with
    | nil => exact h.elim
    | cons name names => simp [ih h.2]

namespace Definition

def signature (d : Definition) : Signature := ⟨d.site.name, d.routine.paramTypes, .undefined⟩

/-- The names of the procedures around a declaration, the outermost first, and its own. -/
def path (d : Definition) : List String := d.site.scopes.openProcedures.reverse ++ [d.site.name]

/-- The declaration stands behind the symbols `older` of a scope, with these scopes and procedures
around it. -/
structure Stands (d : Definition) (older : List Symbol) (outer : List Scope)
    (opened : List String) : Prop where
  place : ∃ scope : Scope, d.site.scopes.scopes = scope :: outer ∧ scope.entries = older
  opened : d.site.scopes.openProcedures = opened
  label : d.routine.label = ScopeStack.joinNames d.path
  names : ∀ name ∈ d.path, IsProcedureName name

/-- The signature that is known for the label of a procedure is its own, or that of an external
procedure of the same name which is declared behind it. -/
def Registered (d : Definition) (signatures : Signatures) (later : List Callable) : Prop :=
  signatures.get? d.routine.label = some d.signature ∨
    d.site.scopes.openProcedures = [] ∧ ∃ types, .external d.site.name (some types) ∈ later ∧
      signatures.get? d.routine.label = some ⟨d.site.name, types, .undefined⟩

theorem Stands.label_inj {d d' : Definition} {older older' : List Symbol}
    {outer outer' : List Scope} {opened opened' : List String} (h : d.Stands older outer opened)
    (h' : d'.Stands older' outer' opened') (heq : d.routine.label = d'.routine.label) :
    d.path = d'.path := by
  rw [h.label, h'.label] at heq
  exact joinNames_inj (by simp [path]) (by simp [path]) h.names h'.names heq

theorem path_inj {d d' : Definition} : d.path = d'.path ↔
    d.site.scopes.openProcedures = d'.site.scopes.openProcedures ∧ d.site.name = d'.site.name := by
  simp [path]

end Definition

/-- What is known at a point of a program, if these are the procedures declared in front of it: every
procedure in an open scope is one of them, and so is the one whose signature its calls are checked by
if it is the latest of its name in its scope. -/
structure Known (history : List Callable) (st : Static) : Prop where
  ne_nil : st.scopes.scopes ≠ []
  opened : Opened st.scopes.scopes.tail st.scopes.openProcedures
  names : ∀ name ∈ st.scopes.openProcedures, IsProcedureName name
  members : ∀ d ∈ st.structs.defs, ∀ m ∈ d.members, m.kind = .var
  externals : ∀ s ∈ st.scopes.externals.entries, s.kind = .procedure →
    ∃ types, .external s.name types ∈ history
  visible : ∀ inside newer s older outer, st.scopes.Declares inside newer s older outer →
    s.kind = .procedure → ∃ earlier d later, history = earlier ++ .procedure d :: later ∧
      s = procedureSymbol d.site.name (outer.length + 1) ∧
      d.Stands older outer (st.scopes.openProcedures.drop inside.length) ∧
      ((∀ t ∈ newer, t.name ≠ s.name) → d.Registered st.signatures later)

namespace Known

variable {history : List Callable} {scope : Scope} {outer : List Scope} {externals : Scope}
  {opened : List String} {structs : StructTable} {signatures : Signatures}

/-- A symbol that is no procedure. -/
theorem push (h : Known history ⟨⟨scope :: outer, externals, opened⟩, structs, signatures⟩)
    {s : Symbol} (hs : s.kind ≠ .procedure) :
    Known history ⟨⟨scope.push s :: outer, externals, opened⟩, structs, signatures⟩ := by
  refine ⟨by simp, h.opened, h.names, h.members, h.externals, ?_⟩
  rintro inside newer t older outer' ⟨scope', hscopes, hentries⟩ hkind
  cases inside with
  | nil =>
    cases hscopes
    cases newer with
    | nil =>
      cases hentries
      exact absurd hkind hs
    | cons first newer =>
      obtain ⟨-, hentries⟩ := List.cons.inj hentries
      obtain ⟨earlier, d, later, hhistory, hsymbol, hstands, hregistered⟩ :=
        h.visible [] newer t older outer ⟨scope, rfl, hentries⟩ hkind
      refine ⟨earlier, d, later, hhistory, hsymbol, hstands, fun hnewer => hregistered ?_⟩
      exact fun u hu => hnewer u (List.mem_cons_of_mem _ hu)
  | cons first inside =>
    cases hscopes
    exact h.visible (scope :: inside) newer t older outer' ⟨scope', rfl, hentries⟩ hkind

/-- The head of a procedure: it is declared, and its signature is registered. -/
theorem define (h : Known history ⟨⟨scope :: outer, externals, opened⟩, structs, signatures⟩)
    {d : Definition} (hstands : d.Stands scope.entries outer opened) :
    Known (history ++ [.procedure d])
      ⟨⟨scope.push (procedureSymbol d.site.name (outer.length + 1)) :: outer, externals, opened⟩,
        structs, signatures.register d.routine.label d.signature⟩ := by
  refine ⟨by simp, h.opened, h.names, h.members, ?_, ?_⟩
  · intro s hs hkind
    obtain ⟨types, hmem⟩ := h.externals s hs hkind
    exact ⟨types, List.mem_append_left _ hmem⟩
  have hlength : outer.length = opened.length := h.opened.length_eq
  -- A visible procedure with the label of the new one is declared in the same scope under the same
  -- name, for its label has as many parts as there are procedures around it.
  have hlabel : ∀ {inside older outer'} {d' : Definition},
      inside.length ≤ opened.length → d'.Stands older outer' (opened.drop inside.length) →
      d'.routine.label = d.routine.label → inside = ([] : List Scope) ∧ d'.site.name = d.site.name := by
    intro inside older outer' d' hle hstands' heq
    obtain ⟨hopened, hname⟩ := Definition.path_inj.mp (hstands'.label_inj hstands heq)
    rw [hstands'.opened, hstands.opened] at hopened
    have hdrop := congrArg List.length hopened
    rw [List.length_drop] at hdrop
    exact ⟨List.eq_nil_of_length_eq_zero (by omega), hname⟩
  -- The other ones keep their signatures.
  have hkept : ∀ inside {newer t older outer'},
      (⟨scope :: outer, externals, opened⟩ : ScopeStack).Declares inside newer t older outer' →
      t.kind = .procedure → ∃ earlier d' later,
        history ++ [.procedure d] = earlier ++ .procedure d' :: later ∧
        t = procedureSymbol d'.site.name (outer'.length + 1) ∧
        d'.Stands older outer' (opened.drop inside.length) ∧
        ((∀ u ∈ newer, u.name ≠ t.name) → (inside = [] → t.name ≠ d.site.name) →
          d'.Registered (signatures.register d.routine.label d.signature) later) := by
    intro inside newer t older outer' hdeclares hkind
    obtain ⟨earlier, d', later, hhistory, hsymbol, hstands', hregistered⟩ :=
      h.visible inside newer t older outer' hdeclares hkind
    refine ⟨earlier, d', later ++ [.procedure d], by simp [hhistory], hsymbol, hstands', ?_⟩
    intro hnewer hname
    have hne : d'.routine.label ≠ d.routine.label := by
      intro heq
      obtain ⟨scope', hscopes, -⟩ := hdeclares
      have hle : inside.length ≤ opened.length := by
        have hcount := congrArg List.length hscopes
        simp only [List.length_cons, List.length_append] at hcount
        omega
      obtain ⟨hinside, hsame⟩ := hlabel hle hstands' heq
      exact hname hinside (by rw [hsymbol]; exact hsame)
    unfold Definition.Registered
    rw [Signatures.get?_register_of_ne _ _ hne]
    rcases hregistered hnewer with hown | ⟨hlevel, types, hmem, hget⟩
    · exact .inl hown
    · exact .inr ⟨hlevel, types, List.mem_append_left _ hmem, hget⟩
  rintro inside newer t older outer' ⟨scope', hscopes, hentries⟩ hkind
  cases inside with
  | nil =>
    cases hscopes
    cases newer with
    | nil =>
      cases hentries
      exact ⟨history, d, [], rfl, rfl, hstands,
        fun _ => .inl (Signatures.get?_register_self _ _ _)⟩
    | cons first newer =>
      obtain ⟨rfl, hnext⟩ := List.cons.inj hentries
      obtain ⟨earlier, d', later, hhistory, hsymbol, hstands', hregistered⟩ :=
        hkept [] ⟨scope, rfl, hnext⟩ hkind
      refine ⟨earlier, d', later, hhistory, hsymbol, hstands', fun hnewer => hregistered ?_ ?_⟩
      · exact fun u hu => hnewer u (List.mem_cons_of_mem _ hu)
      · exact fun _ heq => hnewer _ List.mem_cons_self heq.symm
  | cons first inside =>
    cases hscopes
    obtain ⟨earlier, d', later, hhistory, hsymbol, hstands', hregistered⟩ :=
      hkept (scope :: inside) ⟨scope', rfl, hentries⟩ hkind
    exact ⟨earlier, d', later, hhistory, hsymbol, hstands', fun hnewer => hregistered hnewer (by simp)⟩

/-- The body of the procedure that was declared last is opened. -/
theorem openBody {name : String} {older : List Symbol}
    (h : Known history ⟨⟨scope :: outer, externals, opened⟩, structs, signatures⟩)
    (hlast : scope.entries = procedureSymbol name (outer.length + 1) :: older)
    (hname : IsProcedureName name) :
    Known history ⟨⟨.empty :: scope :: outer, externals, name :: opened⟩, structs, signatures⟩ := by
  refine ⟨by simp, ⟨⟨older, hlast⟩, h.opened⟩, ?_, h.members, h.externals, ?_⟩
  · exact List.forall_mem_cons.mpr ⟨hname, h.names⟩
  · rintro inside newer t older' outer' ⟨scope', hscopes, hentries⟩ hkind
    cases inside with
    | nil =>
      cases hscopes
      simp [Scope.empty] at hentries
    | cons first inside =>
      obtain ⟨-, hscopes⟩ := List.cons.inj hscopes
      exact h.visible inside newer t older' outer' ⟨scope', hscopes, hentries⟩ hkind

theorem closeBody {body : Scope} {name : String} (h : Known history
      ⟨⟨body :: scope :: outer, externals, name :: opened⟩, structs, signatures⟩) :
    Known history ⟨⟨scope :: outer, externals, opened⟩, structs, signatures⟩ := by
  refine ⟨by simp, h.opened.2, (List.forall_mem_cons.mp h.names).2, h.members, h.externals, ?_⟩
  rintro inside newer t older outer' ⟨scope', hscopes, hentries⟩ hkind
  exact h.visible (body :: inside) newer t older outer'
    ⟨scope', by rw [List.cons_append, ← hscopes], hentries⟩ hkind

variable {st : Static}

theorem declareStorage (h : Known history st) (name : String) {kind : SymbolKind} (ty : Ty)
    (hkind : kind ≠ .procedure) :
    Known history { st with scopes := (st.scopes.declareStorage name kind ty).2 } := by
  obtain ⟨⟨_ | ⟨scope, outer⟩, externals, opened⟩, structs, signatures⟩ := st
  · exact absurd rfl h.ne_nil
  · rw [ScopeStack.declareStorage_cons]
    exact h.push hkind

theorem declareAll (h : Known history st) {members : List Member}
    (hmembers : ∀ m ∈ members, m.kind = .var) :
    Known history { st with scopes := st.scopes.declareAll members } := by
  induction members generalizing st with
  | nil => exact h
  | cons m members ih =>
    have hkind : m.kind ≠ .procedure := by simp [hmembers m List.mem_cons_self]
    exact ih (h.declareStorage m.path m.ty hkind)
      fun other hother => hmembers other (List.mem_cons_of_mem _ hother)

theorem declareParams (h : Known history st) (params : List Param) :
    Known history { st with scopes := params.foldl Param.declare st.scopes } := by
  induction params generalizing st with
  | nil => exact h
  | cons p params ih =>
    have hfirst : Known history { st with scopes := Param.declare st.scopes p } := by
      obtain ⟨⟨_ | ⟨scope, outer⟩, externals, opened⟩, structs, signatures⟩ := st
      · exact absurd rfl h.ne_nil
      · simp only [Param.declare, ScopeStack.declareLocal_cons]
        exact h.push (by simp)
    exact ih hfirst

theorem defineStruct (h : Known history st) {d : StructDef} (hd : ∀ m ∈ d.members, m.kind = .var) :
    Known history { st with structs := st.structs.define d } := by
  refine ⟨h.ne_nil, h.opened, h.names, ?_, h.externals, h.visible⟩
  intro d' hd'
  simp only [StructTable.define] at hd'
  split at hd'
  · exact h.members d' hd'
  · rcases List.mem_cons.mp hd' with rfl | hd'
    · exact hd
    · exact h.members d' hd'

theorem declareExternal (h : Known history st) (name : Terminal) {kind : SymbolKind} (ty : Ty)
    (hkind : kind ≠ .procedure) : Known history (st.declareExternal name kind ty) := by
  refine ⟨h.ne_nil, h.opened, h.names, h.members, ?_, h.visible⟩
  intro s hs hprocedure
  rcases List.mem_cons.mp hs with rfl | hs
  · exact absurd hprocedure hkind
  · exact h.externals s hs hprocedure

theorem externals_append (h : Known history st) (name : Terminal) (types : Option (List Ty)) :
    ∀ s ∈ (st.declareExternal name .procedure .undefined).scopes.externals.entries,
      s.kind = .procedure → ∃ types', .external s.name types' ∈
        history ++ [.external name.valueD types] := by
  intro s hs hprocedure
  rcases List.mem_cons.mp hs with rfl | hs
  · exact ⟨types, by simp⟩
  · obtain ⟨types', hmem⟩ := h.externals s hs hprocedure
    exact ⟨types', List.mem_append_left _ hmem⟩

/-- An external procedure without a list of parameters registers no signature. -/
theorem declareUnchecked (h : Known history st) (name : Terminal) :
    Known (history ++ [.external name.valueD none])
      (st.declareExternal name .procedure .undefined) := by
  refine ⟨h.ne_nil, h.opened, h.names, h.members, h.externals_append name none, ?_⟩
  intro inside newer s older outer hdeclares hkind
  obtain ⟨earlier, d, later, hhistory, hsymbol, hstands, hregistered⟩ :=
    h.visible inside newer s older outer hdeclares hkind
  refine ⟨earlier, d, later ++ [.external name.valueD none], by simp [hhistory], hsymbol, hstands, ?_⟩
  intro hnewer
  rcases hregistered hnewer with hown | ⟨hlevel, types, hmem, hget⟩
  · exact .inl hown
  · exact .inr ⟨hlevel, types, List.mem_append_left _ hmem, hget⟩

/-- The signature of an external procedure hides that of a procedure of the program which has its
name for a label. -/
theorem declareChecked (h : Known history st) {name : Terminal}
    (hname : IsProcedureName name.valueD) (types : List Ty) :
    Known (history ++ [.external name.valueD (some types)])
      { st.declareExternal name .procedure .undefined with
        signatures := st.signatures.register name.valueD ⟨name.valueD, types, .undefined⟩ } := by
  refine ⟨h.ne_nil, h.opened, h.names, h.members, h.externals_append name (some types), ?_⟩
  intro inside newer s older outer hdeclares hkind
  obtain ⟨earlier, d, later, hhistory, hsymbol, hstands, hregistered⟩ :=
    h.visible inside newer s older outer hdeclares hkind
  refine ⟨earlier, d, later ++ [.external name.valueD (some types)], by simp [hhistory], hsymbol,
    hstands, ?_⟩
  intro hnewer
  by_cases hlabel : d.routine.label = name.valueD
  · have hpath : d.path = [name.valueD] := by
      apply joinNames_inj (by simp [Definition.path]) (by simp) hstands.names (by simpa using hname)
      rw [← hstands.label, hlabel]
      simp [ScopeStack.joinNames]
    have hsite : d.site.scopes.openProcedures = [] ∧ d.site.name = name.valueD := by
      simpa [Definition.path, List.append_eq_singleton_iff] using hpath
    refine .inr ⟨hsite.1, types, by simp [hsite.2], ?_⟩
    rw [hlabel, hsite.2]
    exact Signatures.get?_register_self _ _ _
  · unfold Definition.Registered
    rw [Signatures.get?_register_of_ne _ _ hlabel]
    rcases hregistered hnewer with hown | ⟨hlevel, types', hmem, hget⟩
    · exact .inl hown
    · exact .inr ⟨hlevel, types', List.mem_append_left _ hmem, hget⟩

end Known

end SlotLang
