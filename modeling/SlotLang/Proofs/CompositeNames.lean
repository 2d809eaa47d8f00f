import SlotLang.Proofs.ProgramCode
import SlotLang.Proofs.WrittenNames

/-!
# When composed names are distinct

A variable of a struct type is stored as scalars with composed names, and a scalar is of use only as
long as no other one of the variable has its name.  Nothing keeps a definition from having two members
of one name: it is no fault, and where the two have the same number of dimensions and a path below in
common, they put the same composed name into every variable of the type.  The name then denotes the
scalar that comes last, and no designator leads to the other one.

This is all that can go wrong.  For a variable in a text without errors, the composed names are distinct
exactly if no definition that its type is built from has such members, and this is the case exactly if
all of its scalars can be reached.
-/

namespace SlotLang

open Aggregate

/-! ## Members that collide -/

instance (leaf other : ScalarPath) : Decidable (leaf.Apart other) :=
  inferInstanceAs (Decidable (leaf.steps ≠ other.steps))

/-- The members have the same name and the same number of dimensions, and below them there is a path
that leads to a scalar of the one and also to a scalar of the other. -/
def Component.Collides (layouts : List Layout) (c m : Component) : Prop :=
  c.name = m.name ∧ c.bounds.length = m.bounds.length ∧
    ∃ leaf ∈ c.ty.leaves layouts, ∃ leaf' ∈ m.ty.leaves layouts, leaf.steps = leaf'.steps

/-- There are no members that collide in any of the structs that the type consists of. -/
def DeclaredTy.Unambiguous : List Layout → DeclaredTy → Prop
  | _, .scalar _ => True
  | [], .struct _ => True
  | layout :: earlier, .struct name =>
      if layout.name = name then
        (layout.components.Pairwise fun c m => ¬ c.Collides earlier m) ∧
          ∀ c ∈ layout.components, DeclaredTy.Unambiguous earlier c.ty
      else DeclaredTy.Unambiguous earlier (.struct name)

/-- Every array has an element at zero. -/
theorem zeros_mem_tuples (bounds : List Nat) : List.replicate bounds.length 0 ∈ tuples bounds := by
  rw [mem_tuples]
  induction bounds with
  | nil => exact .nil
  | cons bound bounds ih => exact .cons (Nat.zero_le bound) ih

namespace Component

variable {c m : Component} {layouts : List Layout}

theorem spread_apart_iff {below : List ScalarPath} :
    (c.spread below).Pairwise ScalarPath.Apart ↔ below.Pairwise ScalarPath.Apart := by
  refine ⟨fun h => ?_, spread_apart⟩
  rw [spread, List.pairwise_flatMap] at h
  have hfirst := h.1 _ (zeros_mem_tuples c.bounds)
  rw [List.pairwise_map] at hfirst
  exact hfirst.imp fun hne heq => hne (congrArg (List.cons _) heq)

/-- Members collide exactly if they have a path in common. -/
theorem collides_iff : c.Collides layouts m ↔
    ∃ leaf ∈ c.leaves layouts, ∃ leaf' ∈ m.leaves layouts, leaf.steps = leaf'.steps := by
  constructor
  · rintro ⟨hname, hdims, leaf, hleaf, leaf', hleaf', heq⟩
    refine ⟨_, mem_spread.mpr ⟨_, zeros_mem_tuples c.bounds, leaf, hleaf, rfl⟩,
      _, mem_spread.mpr ⟨_, zeros_mem_tuples m.bounds, leaf', hleaf', rfl⟩, ?_⟩
    simp only [ScalarPath.under, hname, hdims, heq]
  · rintro ⟨_, hleaf, _, hleaf', heq⟩
    obtain ⟨indices, hindices, low, hlow, rfl⟩ := mem_spread.mp hleaf
    obtain ⟨indices', hindices', low', hlow', rfl⟩ := mem_spread.mp hleaf'
    obtain ⟨hstep, hsteps⟩ := List.cons.inj heq
    rw [Step.mk.injEq] at hstep
    obtain ⟨hname, rfl⟩ := hstep
    have hlength := (mem_tuples.mp hindices).length_eq
    have hlength' := (mem_tuples.mp hindices').length_eq
    exact ⟨hname, hlength.symm.trans hlength', low, hlow, low', hlow', hsteps⟩

end Component

namespace DeclaredTy

theorem leaves_apart_iff (layouts : List Layout) (ty : DeclaredTy) :
    (ty.leaves layouts).Pairwise ScalarPath.Apart ↔ ty.Unambiguous layouts := by
  fun_induction DeclaredTy.leaves layouts ty with
  | case1 layouts ty => simp [Unambiguous]
  | case2 name => simp [Unambiguous]
  | case3 layout earlier ih =>
    rw [List.pairwise_flatMap, Unambiguous, if_pos rfl, and_comm]
    refine and_congr ?_ (forall₂_congr fun c _ => Component.spread_apart_iff.trans (ih c))
    refine List.Pairwise.iff fun c m => ?_
    rw [Component.collides_iff]
    simp only [not_exists, not_and]
    rfl
  | case4 layout earlier name hne ih => rw [Unambiguous, if_neg hne, ih]

instance (layouts : List Layout) (ty : DeclaredTy) : Decidable (ty.Unambiguous layouts) :=
  decidable_of_iff _ (leaves_apart_iff layouts ty)

end DeclaredTy

/-! ## Names of scalars -/

section

variable {layouts : List Layout} {c : Component}

theorem Component.leafNames_nodup_iff (hc : c.Proper)
    (hlayouts : ∀ layout ∈ layouts, ∀ c ∈ layout.components, c.Proper) :
    ((c.leaves layouts).map fun leaf => pathName leaf.steps).Nodup ↔ c.ty.Unambiguous layouts := by
  rw [← DeclaredTy.leaves_apart_iff, ← spread_apart_iff, List.Nodup, List.pairwise_map]
  refine ⟨fun h => h.imp fun hne heq => hne (congrArg pathName heq), fun h => ?_⟩
  refine h.imp_of_mem fun hleaf hleaf' hne heq => ?_
  obtain ⟨hsome, hproper⟩ := leaves_proper_steps hc hlayouts hleaf
  obtain ⟨hsome', hproper'⟩ := leaves_proper_steps hc hlayouts hleaf'
  exact hne (pathName_inj hsome hsome' (fun s hs => (hproper s hs).name)
    (fun s hs => (hproper' s hs).name) heq)

end

/-- Distinct names in each definition are enough. -/
theorem DeclaredTy.unambiguous_of_distinct {layouts : List Layout}
    (hlayouts : ∀ layout ∈ layouts, ∀ c ∈ layout.components, c.Proper)
    (hdistinct : ∀ layout ∈ layouts, (layout.components.map (·.name)).Nodup) (ty : DeclaredTy) :
    ty.Unambiguous layouts := by
  rw [← leaves_apart_iff]
  exact ty.leaves_apart fun layout hlayout => ⟨hlayouts layout hlayout, hdistinct layout hlayout⟩

/-! ## Designators -/

theorem exists_indexTokens (indices : List Nat) :
    ∃ tokens, IndexTokens tokens (indices.map toString) := by
  induction indices with
  | nil => exact ⟨[], .nil⟩
  | cons index indices ih =>
    obtain ⟨tokens, htokens⟩ := ih
    exact ⟨_, @IndexTokens.cons (placeless .openBracket "[") (placeless .number (toString index))
      (placeless .closeBracket "]") _ _ rfl rfl rfl htokens⟩

theorem exists_memberTokens (steps : List Step) :
    ∃ tokens, MemberTokens tokens (steps.map Step.part) := by
  induction steps with
  | nil => exact ⟨[], .nil⟩
  | cons step steps ih =>
    obtain ⟨indices, hindices⟩ := exists_indexTokens step.indices
    obtain ⟨tokens, htokens⟩ := ih
    exact ⟨_, @MemberTokens.cons (placeless .dot ".") (placeless .identifier step.name) _ _ _ _
      rfl rfl hindices htokens⟩

/-- Every path can be written. -/
theorem Session.exists_faces {steps : List Step} (hne : steps ≠ [])
    (hwords : ∀ step ∈ steps, IsWord step.name) : ∃ s : Session, s.Faces steps := by
  obtain ⟨first, more, rfl⟩ := List.exists_cons_of_ne_nil hne
  obtain ⟨indices, hindices⟩ := exists_indexTokens first.indices
  obtain ⟨tokens, htokens⟩ := exists_memberTokens more
  have hpath : PathTokens _ ((first :: more).map Step.part) :=
    @PathTokens.mk (placeless .identifier first.name) _ _ _ _ rfl hindices htokens
  have hwritten : ∀ p ∈ (first :: more).map Step.part, p.Written := by
    refine List.forall_mem_map.mpr fun step hstep => ⟨hwords step hstep, ?_⟩
    refine List.forall_mem_map.mpr fun index _ => ⟨?_, fun c => Text.isDigit_of_mem_toString⟩
    simp
  let after : Window := .ofTokens [] "shell"
  refine ⟨.start .full (.prepend (placeless .identifier first.name :: (indices ++ tokens)) after) 2, ?_⟩
  have hfaces := @Faces.mk (.start .full (.prepend _ after) 2) _ _ after rfl hpath hwritten
    (by decide) (by decide)
  simpa only [List.map_map, Function.comp_def, Step.step_part, List.map_id'] using hfaces

/-- There is a designator that leads to the symbol. -/
def ScopeStack.Addresses (st : ScopeStack) (symbol : Symbol) : Prop :=
  ∃ (s : Session) (name : String), s.designator.1 = some name ∧
    st.resolve name = some ⟨symbol, false⟩

theorem ScopeStack.Addresses.resolve_name {st : ScopeStack} {symbol : Symbol}
    (h : st.Addresses symbol) : st.resolve symbol.name = some ⟨symbol, false⟩ := by
  obtain ⟨-, name, -, hresolve⟩ := h
  cases resolve_eq_some_iff.mp hresolve with
  | declared _ _ hlatest =>
    rw [hlatest.1]
    exact hresolve

theorem layOut_nodup (depth offset : Nat) (leaves : List ScalarPath) :
    (layOut depth offset leaves).Nodup := by
  induction leaves generalizing offset with
  | nil => simp [layOut]
  | cons leaf leaves ih =>
    rw [layOut_cons, List.nodup_cons]
    refine ⟨fun hmem => ?_, ih (offset + 1)⟩
    obtain ⟨i, hi, heq⟩ := List.mem_mapIdx.mp hmem
    have hoffset := Option.some.inj (congrArg Symbol.offset heq)
    omega

section

variable {layouts : List Layout} {c : Component}

theorem Component.exists_designator (hc : c.Proper)
    (hlayouts : ∀ layout ∈ layouts, ∀ c ∈ layout.components, c.Proper) {leaf : ScalarPath}
    (h : leaf ∈ c.leaves layouts) : ∃ s : Session, s.designator.1 = some (pathName leaf.steps) := by
  obtain ⟨hne, hproper⟩ := leaves_proper_steps hc hlayouts h
  obtain ⟨s, hfaces⟩ := Session.exists_faces hne fun step hstep => (hproper step hstep).name
  exact ⟨s, hfaces.designator_eq fun step hstep => (hproper step hstep).indices⟩

/-- All scalars of a variable can be reached exactly if they have distinct names. -/
theorem Component.addresses_iff (hc : c.Proper)
    (hlayouts : ∀ layout ∈ layouts, ∀ c ∈ layout.components, c.Proper) {st : ScopeStack}
    {scope grown : Scope} {outer : List Scope} {created : List Symbol}
    (hscopes : st.scopes = grown :: outer) (hsymbols : grown.symbols = scope.symbols ++ created)
    (hcreated : created = layOut outer.length scope.slots (c.leaves layouts)) :
    (∀ symbol ∈ created, st.Addresses symbol) ↔ (created.map (·.name)).Nodup := by
  constructor
  · intro haddresses
    have hnodup : created.Nodup := hcreated ▸ layOut_nodup _ _ _
    refine hnodup.map_on fun s hs t ht heq => ?_
    have hresolve := (haddresses s hs).resolve_name
    rw [heq, (haddresses t ht).resolve_name] at hresolve
    cases hresolve
    rfl
  · intro hnodup symbol hsymbol
    have hlatest := Scope.latest_of_append hsymbols hnodup hsymbol
    have hkeeps : st.Keeps grown symbol.name := ⟨[], grown, outer, [], hscopes, rfl, by simp, by simp⟩
    obtain ⟨i, hi, rfl⟩ := List.mem_mapIdx.mp (hcreated ▸ hsymbol)
    obtain ⟨s, hs⟩ := exists_designator hc hlayouts (List.getElem_mem hi)
    exact ⟨s, _, hs, hkeeps.resolve_eq hlatest⟩

end

/-! ## The definitions in front of a place -/

def Landmark.layout? : Landmark → Option Layout
  | .define layout => some layout
  | _ => none

/-- The structs that the landmarks define, the latest first. -/
def definitions (landmarks : List Landmark) : List Layout :=
  (landmarks.filterMap Landmark.layout?).reverse

theorem AllProper.definitions {landmarks : List Landmark} (h : AllProper landmarks) :
    ∀ layout ∈ definitions landmarks, ∀ c ∈ layout.components, c.Proper := by
  intro layout hlayout
  obtain ⟨l, hl, hsome⟩ := List.mem_filterMap.mp (List.mem_reverse.mp hlayout)
  cases l with
  | define written =>
    cases hsome
    exact h _ hl
  | _ => cases hsome

theorem Describes.define_layout {table : StructTable} {layouts : List Layout}
    (h : Describes table layouts) {layout : Layout} (hnew : table.isDefined layout.name = false) :
    Describes
      (table.define ⟨layout.name, layout.components.flatMap (Component.members table)⟩)
      (layout :: layouts) := by
  intro other
  simp only [membersOf, StructTable.define, hnew, Bool.false_eq_true, if_false, StructTable.get?,
    List.find?_cons, DeclaredTy.leaves]
  by_cases hname : layout.name = other
  · simp only [hname, decide_true, if_true, Option.map_some, Option.getD_some, List.map_flatMap]
    exact List.flatMap_congr fun c _ => h.members_eq c
  · simp only [hname, decide_false, if_false]
    exact h other

/-- As long as all is accepted, the structs are what their definitions say. -/
theorem Stage.describes_run {s : Stage} {layouts : List Layout} (h : Describes s.structs layouts)
    {landmarks : List Landmark} (haccepted : s.Along Accepted landmarks) :
    Describes (s.run landmarks).structs (definitions landmarks ++ layouts) := by
  induction landmarks generalizing s layouts with
  | nil => exact h
  | cons l landmarks ih =>
    obtain ⟨hl, hmore⟩ := haccepted
    cases l with
    | define layout =>
      have hlayout : Describes (s.step (.define layout)).structs (layout :: layouts) := by
        rw [step, hl.2]
        exact h.define_layout hl.1
      simpa [definitions, Landmark.layout?] using ih hlayout hmore
    | declare c =>
      have hstructs : (s.step (.declare c)).structs = s.structs := by
        dsimp only [step]
        split <;> rfl
      exact ih (hstructs ▸ h) hmore
    | _ => exact ih h hmore

/-! ## Texts without errors -/

/-- A text that compiles without errors is read as a program without faults. -/
theorem exists_faultless {source file : String} {minDistance : Nat} {result : Compilation}
    {p : Program} (hcompile : compile source file minDistance = .ok result)
    (hcount : result.errorCount = 0) (hparse : parse source file = .ok p) :
    AllProper p.landmarks ∧ ∃ first, Faultless (p.lower (.start first)).events := by
  obtain ⟨tokens, hscan, rfl⟩ := exists_tokens_of_compile hcompile
  have hread : p = ((Window.ofTokens tokens file).readProgram .full
      (Window.ofTokens tokens file).budget).1 := by
    unfold parse at hparse
    rw [hscan] at hparse
    exact (Except.ok.inj hparse).symm
  rw [compileTokens, compileWindow_eq] at hcount
  dsimp only at hcount
  have hfaultless := (Reporter.count_new_hearAll_eq_zero_iff minDistance _).mp hcount
  subst hread
  exact ⟨scan_landmarks_proper hscan _, _, hfaultless⟩

/-- In a text without errors, a variable adds its scalars to the innermost scope, one slot after the
other, under their composed names.  The names are distinct exactly if no two members collide in the
structs that the type consists of, as it is the case where each definition has distinct names, and
exactly if behind the declaration there is a designator for every scalar. -/
theorem composed_names_distinct_iff {source file : String} {minDistance : Nat}
    {result : Compilation} {p : Program} {front back : List Landmark} {c : Component}
    (hcompile : compile source file minDistance = .ok result) (hcount : result.errorCount = 0)
    (hparse : parse source file = .ok p) (hplace : p.landmarks = front ++ .declare c :: back) :
    let before := Stage.start.run front
    let after := before.step (.declare c)
    ∃ (scope grown : Scope) (outer : List Scope) (created : List Symbol),
      before.scopes.scopes = scope :: outer ∧
      after.scopes = { before.scopes with scopes := grown :: outer } ∧
      grown.symbols = scope.symbols ++ created ∧
      created = layOut outer.length scope.slots (c.leaves (definitions front)) ∧
      ((created.map (·.name)).Nodup ↔ c.ty.Unambiguous (definitions front)) ∧
      ((∀ layout ∈ definitions front, (layout.components.map (·.name)).Nodup) →
        c.ty.Unambiguous (definitions front)) ∧
      ((∀ symbol ∈ created, after.scopes.Addresses symbol) ↔ (created.map (·.name)).Nodup) ∧
      (∀ (env : Env) (ty : DeclaredTy) (d : Declarator), env.scopes = before.scopes →
        env.structs = before.structs → d.landmarks ty = [.declare c] →
        (d.lower ty env).env.scopes = after.scopes) := by
  intro before after
  obtain ⟨hproper, first, hfaultless⟩ := exists_faultless hcompile hcount hparse
  have haccepted := (p.lower_visits first).accepted hfaultless
  rw [hplace, Stage.along_append] at haccepted
  obtain ⟨hfront, hfits, -⟩ := haccepted
  have hdescribes : Describes before.structs (definitions front) := by
    have hstart : Describes Stage.start.structs [] := fun _ => rfl
    simpa only [List.append_nil] using Stage.describes_run hstart hfront
  have hc : c.Proper := hproper (.declare c) (by simp [hplace])
  have hlayouts := AllProper.definitions fun l (hl : l ∈ front) => hproper l (by simp [hplace, hl])
  have hne := (p.onTheWay hplace).fit.scopes.ne_nil
  obtain ⟨scope, outer, hscopes⟩ := List.exists_cons_of_ne_nil hne
  obtain ⟨grown, hgrown, hsymbols⟩ := ScopeStack.declareAll_leaves (c.leaves (definitions front))
    scope outer before.scopes.externals before.scopes.openProcedures
  have hafter : after.scopes = { before.scopes with scopes := grown :: outer } := by
    have hstep : after.scopes = before.scopes.declareAll (c.members before.structs) := by
      dsimp only [after, Stage.step]
      rw [if_neg hfits]
    rw [hstep, ← hgrown, ← hdescribes.members_eq c, ← hscopes]
    rfl
  have hnodup := c.leafNames_nodup_iff hc hlayouts
  rw [← map_name_layOut outer.length scope.slots] at hnodup
  refine ⟨scope, grown, outer, _, hscopes, hafter, hsymbols, rfl, hnodup,
    fun hdistinct => c.ty.unambiguous_of_distinct hlayouts hdistinct,
    c.addresses_iff hc hlayouts (by rw [hafter]) hsymbols rfl, ?_⟩
  intro env ty d hsame hstructs hlandmarks
  have hvisits : Visits before.subjects (d.lower ty) [.declare c] :=
    hlandmarks ▸ d.lower_visits ty
  have hstage : env.stage before.subjects = before := by
    simp only [Env.stage, hsame, hstructs]
  have hend := congrArg Stage.scopes (hvisits env).stage
  rw [hstage] at hend
  exact hend

/-- Two members have the same name, but they differ in their dimensions, in both of the structs. -/
def nestedText : String :=
  "program p \x7b struct A \x7b int x; bool x[1]; \x7d; " ++
    "struct B \x7b struct A a[1]; int a; \x7d; struct B b; \x7d"

/-- The two members cannot be told apart. -/
def repeatedText : String :=
  "program p \x7b struct S \x7b int x; int x; \x7d; struct S s; \x7d"

theorem exists_compiled_landmarks {source file : String} {minDistance : Nat} {landmarks : List Landmark}
    (hcompile : (compile source file minDistance).toOption.map (·.errorCount) = some 0)
    (hparse : (parse source file).toOption.map Program.landmarks = some landmarks) :
    ∃ result p, compile source file minDistance = .ok result ∧ result.errorCount = 0 ∧
      parse source file = .ok p ∧ p.landmarks = landmarks := by
  cases hresult : compile source file minDistance with
  | error fault => simp [hresult, Except.toOption] at hcompile
  | ok result =>
    cases hread : parse source file with
    | error fault => simp [hread, Except.toOption] at hparse
    | ok p =>
      exact ⟨result, p, rfl, by simpa [hresult, Except.toOption] using hcompile, rfl,
        by simpa [hread, Except.toOption] using hparse⟩

/-- The definitions of the first text. -/
def nestedLayouts : List Layout :=
  [⟨"B", [⟨"a", .struct "A", [1]⟩, ⟨"a", .scalar .int, []⟩]⟩,
    ⟨"A", [⟨"x", .scalar .int, []⟩, ⟨"x", .scalar .bool, [1]⟩]⟩]

/-- All seven scalars of the first text can be reached, and one of the two in the second text cannot,
although there is no fault in it. -/
theorem composed_names_distinct_iff_texts :
    (∃ (result : Compilation) (p : Program) (created : List Symbol),
      compile nestedText "sample" 2 = .ok result ∧ result.errorCount = 0 ∧
      parse nestedText "sample" = .ok p ∧ (created.map (·.name)).Nodup ∧
      created.map (·.name) = ["b.a[0].x", "b.a[0].x[0]", "b.a[0].x[1]", "b.a[1].x", "b.a[1].x[0]",
        "b.a[1].x[1]", "b.a"] ∧
      ∀ symbol ∈ created, (Stage.start.run p.landmarks).scopes.Addresses symbol) ∧
    ∃ (result : Compilation) (p : Program) (created : List Symbol),
      compile repeatedText "sample" 2 = .ok result ∧ result.errorCount = 0 ∧
      parse repeatedText "sample" = .ok p ∧ created.map (·.name) = ["s.x", "s.x"] ∧
      ¬ ∀ symbol ∈ created, (Stage.start.run p.landmarks).scopes.Addresses symbol := by
  constructor
  · obtain ⟨result, p, hcompile, hcount, hparse, hplace⟩ :=
      @exists_compiled_landmarks nestedText "sample" 2 [.define nestedLayouts[1], .define nestedLayouts[0],
        .declare ⟨"b", .struct "B", []⟩] (by decide +kernel) (by decide +kernel)
    obtain ⟨scope, grown, outer, created, hscopes, hafter, hsymbols, hcreated, hnodup, -,
      haddresses, -⟩ := @composed_names_distinct_iff _ _ _ _ _
        [.define nestedLayouts[1], .define nestedLayouts[0]] [] ⟨"b", .struct "B", []⟩ hcompile hcount
        hparse hplace
    have hdistinct := hnodup.mpr (by decide +kernel)
    refine ⟨result, p, created, hcompile, hcount, hparse, hdistinct, ?_, ?_⟩
    · rw [hcreated, map_name_layOut]
      decide +kernel
    · rw [hplace]
      exact haddresses.mpr hdistinct
  · obtain ⟨result, p, hcompile, hcount, hparse, hplace⟩ :=
      @exists_compiled_landmarks repeatedText "sample" 2
        [.define ⟨"S", [⟨"x", .scalar .int, []⟩, ⟨"x", .scalar .int, []⟩]⟩,
          .declare ⟨"s", .struct "S", []⟩] (by decide +kernel) (by decide +kernel)
    obtain ⟨scope, grown, outer, created, hscopes, hafter, hsymbols, hcreated, hnodup, -,
      haddresses, -⟩ := @composed_names_distinct_iff _ _ _ _ _ [.define _] [] ⟨"s", .struct "S", []⟩
        hcompile hcount hparse hplace
    refine ⟨result, p, created, hcompile, hcount, hparse, ?_, ?_⟩
    · rw [hcreated, map_name_layOut]
      decide +kernel
    · intro hall
      rw [hplace] at hall
      exact absurd (hnodup.mp (haddresses.mp hall)) (by decide +kernel)

end SlotLang
