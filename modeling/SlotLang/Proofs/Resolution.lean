import SlotLang.Proofs.CallPoints

/-!
# The declaration that a name denotes

A name that denotes a procedure denotes one declaration of the program.  There is one, since all
procedures in the open scopes are known where the name stands, and there is only one, since no two
declarations stand at the same place: from one declaration to the next the scopes only grow, or are
left for a scope that has grown in the meantime.
-/

namespace SlotLang

/-- The name denotes the procedure of this declaration: the innermost scope that has the name has it
from there, and has not got it anew since. -/
def Use.ResolvesTo (u : Use) (d : Definition) : Prop :=
  d.site.name = u.name ∧ ∃ inside newer older outer, (∀ scope ∈ inside, scope.Lacks u.name) ∧
    (∀ t ∈ newer, t.name ≠ u.name) ∧
    u.scopes.Declares inside newer (procedureSymbol u.name (outer.length + 1)) older outer ∧
    ∃ scope : Scope, d.site.scopes.scopes = scope :: outer ∧ scope.entries = older

theorem eq_of_first {α : Type} {q : α → Prop} {xs xs' ys ys' : List α} {a a' : α}
    (hxs : ∀ x ∈ xs, ¬ q x) (hxs' : ∀ x ∈ xs', ¬ q x) (ha : q a) (ha' : q a')
    (h : xs ++ a :: ys = xs' ++ a' :: ys') : a = a' ∧ ys = ys' := by
  induction xs generalizing xs' with
  | nil =>
    cases xs' with
    | nil => exact List.cons.inj h
    | cons x xs' =>
      have hfirst : a = x := (List.cons.inj h).1
      exact absurd (hfirst ▸ ha) (hxs' x List.mem_cons_self)
  | cons x xs ih =>
    cases xs' with
    | nil =>
      have hfirst : x = a' := (List.cons.inj h).1
      exact absurd (hfirst ▸ ha') (hxs x List.mem_cons_self)
    | cons x' xs' =>
      apply ih
      · exact fun y hy => hxs y (List.mem_cons_of_mem _ hy)
      · exact fun y hy => hxs' y (List.mem_cons_of_mem _ hy)
      · exact (List.cons.inj h).2

/-- All declarations that a name denotes stand at the same place. -/
theorem Use.ResolvesTo.place_eq {u : Use} {d d' : Definition} (h : u.ResolvesTo d)
    (h' : u.ResolvesTo d') : d.site.scopes.scopes = d'.site.scopes.scopes := by
  obtain ⟨-, inside, newer, older, outer, hinside, hnewer, ⟨scope, hscopes, hentries⟩,
    place, hplace, holder⟩ := h
  obtain ⟨-, inside', newer', older', outer', hinside', hnewer', ⟨scope', hscopes', hentries'⟩,
    place', hplace', holder'⟩ := h'
  have hmem : procedureSymbol u.name (outer.length + 1) ∈ scope.entries := by simp [hentries]
  have hmem' : procedureSymbol u.name (outer'.length + 1) ∈ scope'.entries := by simp [hentries']
  have hfirst : scope = scope' ∧ outer = outer' := by
    apply eq_of_first (q := fun scope => ¬ scope.Lacks u.name)
    · exact fun t ht => not_not.mpr (hinside t ht)
    · exact fun t ht => not_not.mpr (hinside' t ht)
    · exact fun hlacks => hlacks _ hmem rfl
    · exact fun hlacks => hlacks _ hmem' rfl
    · exact hscopes.symm.trans hscopes'
  obtain ⟨rfl, rfl⟩ := hfirst
  have hlast : older = older' := by
    have hsymbols := hentries.symm.trans hentries'
    exact (eq_of_first (q := fun t => t.name = u.name) hnewer hnewer' rfl rfl hsymbols).2
  have hscope : place = place' := Scope.ext (by rw [holder, holder', hlast])
  rw [hplace, hplace', hscope]

/-- What a call finds: a declaration that its name denotes, whose label it composes, and whose
signature it is checked by. -/
theorem Reached.exists_resolvesTo {all : List Callable} {u : Use} {signatures : Signatures}
    (h : Reached all u signatures) {s : Symbol} (htarget : u.target? = some ⟨s, false⟩)
    (hkind : s.kind = .procedure) :
    ∃ earlier d later, all = earlier ++ .procedure d :: later ∧ u.ResolvesTo d ∧
      callLabel u.scopes ⟨s, false⟩ = d.routine.label ∧ d.Registered signatures later := by
  obtain ⟨history, ⟨rest, hall⟩, st, hknown, hscopes, rfl⟩ := h
  cases ScopeStack.resolve_eq_some_iff.mp htarget with
  | @declared s inside outer scope hstack hlacks hlatest =>
    obtain ⟨hname, newer, older, hentries, hnewer⟩ := hlatest
    have hdeclares : u.scopes.Declares inside newer s older outer := ⟨scope, hstack, hentries⟩
    have hdeclared : st.scopes.Declares inside newer s older outer := by
      rw [hscopes]
      exact hdeclares
    obtain ⟨earlier, d, later, hhistory, hsymbol, hstands, hregistered⟩ :=
      hknown.visible inside newer s older outer hdeclared hkind
    have hsite : d.site.name = u.name := by
      rw [← hname, hsymbol]
      rfl
    refine ⟨earlier, d, later ++ rest, by rw [← hall, hhistory]; simp, ⟨hsite, ?_⟩, ?_, ?_⟩
    · rw [hsymbol, hsite] at hdeclares
      exact ⟨inside, newer, older, outer, hlacks, hnewer, hdeclares, hstands.place⟩
    · have hlevel : u.scopes.callLevel s = inside.length := by
        have hdepth : u.scopes.depth = inside.length + (outer.length + 1) := by
          rw [ScopeStack.depth, hstack]
          simp
        have hframe : s.frameDepth = outer.length + 1 := by
          rw [hsymbol]
          rfl
        rw [ScopeStack.callLevel, hdepth, hframe]
        omega
      have hopened := hstands.opened
      rw [hscopes] at hopened
      have hcall : callLabel u.scopes ⟨s, false⟩ =
          u.scopes.labelForCall (u.scopes.callLevel s) s.name := by
        simp [callLabel]
      rw [hcall, hlevel, hstands.label, ScopeStack.labelForCall, Definition.path, hopened, hsite,
        hname]
    · rcases hregistered (by rw [hname]; exact hnewer) with hown | ⟨hopened, types, hmem, hget⟩
      · exact .inl hown
      · exact .inr ⟨hopened, types, List.mem_append_left _ hmem, hget⟩

/-! ## Places of declarations -/

/-- The place of a declaration in a phrase that starts and ends with these stages of the innermost
scope.  A declaration in this scope stands in front of its own symbol, and one further inside stands
behind the symbol of the procedure that it is in. -/
def Definition.Between (d : Definition) (first last : Scope) (outer : List Scope) : Prop :=
  ∃ inside scope, d.site.scopes.scopes = inside ++ scope :: outer ∧
    (inside = [] → first.size ≤ scope.size ∧ scope.size < last.size) ∧
    (inside ≠ [] → first.size < scope.size ∧ scope.size ≤ last.size)

theorem Definition.Between.mono {d : Definition} {first last first' last' : Scope}
    {outer : List Scope} (h : d.Between first last outer) (hfirst : first'.size ≤ first.size)
    (hlast : last.size ≤ last'.size) : d.Between first' last' outer := by
  obtain ⟨inside, scope, hscopes, hhere, hdeeper⟩ := h
  refine ⟨inside, scope, hscopes, fun hnil => ?_, fun hne => ?_⟩
  · have hsize := hhere hnil
    omega
  · have hsize := hdeeper hne
    omega

/-- Declarations in phrases that follow each other stand at different places. -/
theorem Definition.Between.ne {d d' : Definition} {first mid last : Scope} {outer : List Scope}
    (h : d.Between first mid outer) (h' : d'.Between mid last outer) :
    d.site.scopes.scopes ≠ d'.site.scopes.scopes := by
  obtain ⟨inside, scope, hscopes, hhere, hdeeper⟩ := h
  obtain ⟨inside', scope', hscopes', hhere', hdeeper'⟩ := h'
  intro heq
  rw [hscopes, hscopes'] at heq
  obtain ⟨hinside, hrest⟩ := List.append_inj' heq rfl
  have hsize : scope.size = scope'.size := by rw [(List.cons.inj hrest).1]
  by_cases hnil : inside = []
  · have hle := hhere hnil
    have hle' := hhere' (hinside ▸ hnil)
    omega
  · have hle := hdeeper hnil
    have hle' := hdeeper' (hinside ▸ hnil)
    omega

/-- The declarations stand at different places between two stages of the innermost scope. -/
structure Apart (found : List Definition) (first last : Scope) (outer : List Scope) : Prop where
  le : first.size ≤ last.size
  between : ∀ d ∈ found, d.Between first last outer
  pairwise : found.Pairwise fun d d' => d.site.scopes.scopes ≠ d'.site.scopes.scopes

theorem Apart.nil {first last : Scope} {outer : List Scope} (h : first.size ≤ last.size) :
    Apart [] first last outer :=
  ⟨h, by simp, .nil⟩

theorem Apart.append {found more : List Definition} {first mid last : Scope} {outer : List Scope}
    (h₁ : Apart found first mid outer) (h₂ : Apart more mid last outer) :
    Apart (found ++ more) first last outer := by
  refine ⟨Nat.le_trans h₁.le h₂.le, ?_, ?_⟩
  · intro d hd
    rcases List.mem_append.mp hd with hd | hd
    · exact (h₁.between d hd).mono (Nat.le_refl _) h₂.le
    · exact (h₂.between d hd).mono h₁.le (Nat.le_refl _)
  · rw [List.pairwise_append]
    exact ⟨h₁.pairwise, h₂.pairwise, fun d hd d' hd' => (h₁.between d hd).ne (h₂.between d' hd')⟩

/-- The declarations of a phrase stand apart, wherever the phrase starts. -/
def StandsApart (found : Static → List Definition) (final : Static → Static) : Prop :=
  ∀ (st : Static) (first : Scope) (outer : List Scope), st.scopes.Sound →
    st.scopes.scopes = first :: outer →
    ∃ last, (final st).scopes.scopes = last :: outer ∧ Apart (found st) first last outer

theorem ScopeStack.Grows.exists_last {st st' : ScopeStack} (h : st.Grows st') {first : Scope}
    {outer : List Scope} (hscopes : st.scopes = first :: outer) :
    ∃ last : Scope, st'.scopes = last :: outer ∧ first.size ≤ last.size := by
  have hstages := h.stages
  have htail := h.outer
  rw [hscopes] at hstages htail
  cases hlast : st'.scopes with
  | nil =>
    rw [hlast] at hstages
    cases hstages
  | cons last rest =>
    rw [hlast] at hstages htail
    have hsuffix := (List.forall₂_cons.mp hstages).1
    exact ⟨last, by rw [show rest = outer from htail], hsuffix.length_le⟩

theorem Settles.standsApart {X : Static → Action × Static} (hX : Settles X) :
    StandsApart (fun _ => []) fun st => (X st).2 := by
  intro st first outer hsound hscopes
  obtain ⟨last, hlast, hle⟩ := (hX st hsound.ne_nil).growth.grows.exists_last hscopes
  exact ⟨last, hlast, .nil hle⟩

theorem StandsApart.append {found more : Static → List Definition} {mid final : Static → Static}
    (h₁ : StandsApart found mid) (h₂ : StandsApart more final)
    (hsound : ∀ st, st.scopes.Sound → (mid st).scopes.Sound) :
    StandsApart (fun st => found st ++ more (mid st)) fun st => final (mid st) := by
  intro st first outer hst hscopes
  obtain ⟨last, hlast, hfound⟩ := h₁ st first outer hst hscopes
  obtain ⟨last', hlast', hmore⟩ := h₂ (mid st) last outer (hsound st hst) hlast
  exact ⟨last', hlast', hfound.append hmore⟩

/-- A procedure stands in front of everything inside it. -/
theorem StandsApart.procedure {found : Static → List Definition} {B : Static → Body × Static}
    (hbody : StandsApart found fun st => (B st).2) (name : String) (params : List Param)
    (r : Static → Routine) :
    StandsApart (fun st => ⟨⟨name, st.scopes⟩, r st⟩ :: found (st.enter name params))
      fun st => (B (st.enter name params)).2.leave := by
  intro st first outer hsound hscopes
  obtain ⟨scope, hbodyScopes, -, -, hinside, -⟩ := enter_scopes hsound name params
  let pushed := first.push (procedureSymbol name (outer.length + 1))
  have hdeclared : (st.scopes.declareProcedure name).2.scopes = pushed :: outer := by
    obtain ⟨⟨scopes, externals, opened⟩, structs, signatures⟩ := st
    have hscopes : scopes = first :: outer := hscopes
    subst hscopes
    rw [ScopeStack.declareProcedure_cons]
    rfl
  rw [hdeclared] at hbodyScopes
  obtain ⟨frame, hframe, hapart⟩ := hbody _ scope (pushed :: outer) hinside hbodyScopes
  have hsize : pushed.size = first.size + 1 := by simp [pushed, Scope.push, Scope.size]
  have hdeeper : ∀ d ∈ found (st.enter name params), ∃ inside, inside ≠ [] ∧
      d.site.scopes.scopes = inside ++ pushed :: outer := by
    intro d hd
    obtain ⟨inside, scope', hplace, -, -⟩ := hapart.between d hd
    exact ⟨inside ++ [scope'], by simp, by simp [hplace]⟩
  refine ⟨pushed, ?_, ⟨by omega, ?_, ?_⟩⟩
  · simp [Static.leave, ScopeStack.exitProcedure, ScopeStack.closeScope, hframe]
  · intro d hd
    rcases List.mem_cons.mp hd with rfl | hd
    · exact ⟨[], first, hscopes, fun _ => by omega, by simp⟩
    · obtain ⟨inside, hne, hplace⟩ := hdeeper d hd
      exact ⟨inside, pushed, hplace, fun hnil => absurd hnil hne, fun _ => by omega⟩
  · rw [List.pairwise_cons]
    refine ⟨fun d hd heq => ?_, hapart.pairwise⟩
    obtain ⟨inside, hne, hplace⟩ := hdeeper d hd
    have hlength := congrArg List.length (heq.symm.trans hscopes)
    rw [hplace, List.length_append, List.length_cons, List.length_cons] at hlength
    have hpos := List.length_pos_iff.mpr hne
    omega

mutual

theorem Procedure.definitions_apart : ∀ p : Procedure,
    StandsApart p.definitions fun st => (p.elaborate st).2
  | .mk keyword name opening params closing brace body closingBrace =>
      StandsApart.procedure (bodyDefinitions_apart body) name.valueD (Separated.toList? params)
        fun st => ((Procedure.mk keyword name opening params closing brace body
          closingBrace).elaborate st).1

theorem bodyDefinitions_apart : ∀ items : List BodyItem,
    StandsApart (bodyDefinitions items) fun st => (elaborateBody items st).2
  | [] => fun _ first _ _ hscopes => ⟨first, hscopes, .nil (Nat.le_refl _)⟩
  | .declaration d :: more =>
      d.elaborate_settles.standsApart.append (bodyDefinitions_apart more) fun st hst =>
        (d.elaborate_settles st hst.ne_nil).growth.sound hst
  | .statement s :: more =>
      s.elaborate_settles.standsApart.append (bodyDefinitions_apart more) fun st hst =>
        (s.elaborate_settles st hst.ne_nil).growth.sound hst
  | .nested p :: more =>
      p.definitions_apart.append (bodyDefinitions_apart more) fun st hst =>
        (p.elaborate_settles st hst).growth.sound hst
  | .skipped _ :: more => bodyDefinitions_apart more

end

theorem filterMap_definition?_procedure (found : List Definition) :
    (found.map Callable.procedure).filterMap Callable.definition? = found := by
  rw [List.filterMap_map]
  exact List.filterMap_some

theorem ProgramItem.callables_apart (item : ProgramItem) :
    StandsApart (fun st => (item.callables st).filterMap Callable.definition?)
      fun st => (item.elaborate st).2 := by
  cases item with
  | declaration d => exact d.elaborate_settles.standsApart
  | procedure p =>
    simp only [ProgramItem.callables, filterMap_definition?_procedure]
    exact p.definitions_apart
  | external e =>
    intro st first outer _ hscopes
    obtain ⟨last, hlast, hle⟩ := (e.extends_declare st).grows.exists_last hscopes
    have hnone : e.callables.filterMap Callable.definition? = [] := by
      cases e <;> simp [External.callables, Callable.definition?]
    refine ⟨last, hlast, ?_⟩
    simp only [ProgramItem.callables, hnone]
    exact .nil hle
  | skipped token => exact fun st first outer _ hscopes => ⟨first, hscopes, .nil (Nat.le_refl _)⟩

theorem itemsCallables_apart (items : List ProgramItem) :
    StandsApart (fun st => (itemsCallables items st).filterMap Callable.definition?)
      fun st => (elaborateItems items st).2 := by
  induction items with
  | nil => exact fun st first outer _ hscopes => ⟨first, hscopes, .nil (Nat.le_refl _)⟩
  | cons item more ih =>
    simp only [itemsCallables, List.filterMap_append]
    exact item.callables_apart.append ih fun st hst => (item.elaborate_settles hst).growth.sound hst

/-- No two procedures of a program are declared at the same place. -/
theorem Program.definitions_pairwise (p : Program) :
    p.definitions.Pairwise fun d d' => d.site.scopes.scopes ≠ d'.site.scopes.scopes := by
  have hsound : ScopeStack.empty.openScope.Sound :=
    ⟨by simp [ScopeStack.openScope], trivial, trivial⟩
  obtain ⟨last, -, hapart⟩ := itemsCallables_apart p.items ⟨_, .empty, .empty⟩ .empty [] hsound rfl
  exact hapart.pairwise

end SlotLang
