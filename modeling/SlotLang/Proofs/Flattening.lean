import Mathlib.Data.List.Forall2
import Mathlib.Data.List.Nodup
import SlotLang.Proofs.Cells
import SlotLang.Proofs.LoweringCode
import SlotLang.Proofs.Paths

/-!
# Flattening

A struct table keeps only composed names, and so does a scope: what was an array or a struct cannot
be seen there any more.  This module keeps the definitions as they were written and finds the scalars
of a variable from them, each by its path.  The names that a declaration adds to a scope are the names
of these paths, in the same order, and a designator that writes one of the paths is read as its name.
-/

namespace SlotLang

open Lowering Aggregate

/-! ## Definitions as they are written -/

/-- A variable or a member of a struct, with a bound for each of its dimensions. -/
structure Component where
  name : String
  ty : DeclaredTy
  bounds : List Nat
  deriving DecidableEq, Repr

/-- A struct, with its members in the order of their definition. -/
structure Layout where
  name : String
  components : List Component
  deriving DecidableEq, Repr

/-- A scalar inside of a variable, and the path that leads to it. -/
structure ScalarPath where
  steps : List Step
  ty : Ty
  deriving DecidableEq, Repr

/-- The paths are different, whatever the types. -/
def ScalarPath.Apart (leaf other : ScalarPath) : Prop := leaf.steps ≠ other.steps

def ScalarPath.under (s : Step) (leaf : ScalarPath) : ScalarPath :=
  { leaf with steps := s :: leaf.steps }

/-- The indices that some bounds admit, each from zero up to its bound.  The last one varies
fastest. -/
def tuples : List Nat → List (List Nat)
  | [] => [[]]
  | bound :: bounds =>
      (List.range (bound + 1)).flatMap fun index => (tuples bounds).map (index :: ·)

/-- The scalars of all elements, if each element has the scalars `below`. -/
def Component.spread (c : Component) (below : List ScalarPath) : List ScalarPath :=
  (tuples c.bounds).flatMap fun indices => below.map (.under ⟨c.name, indices⟩)

/-- The scalars that a value of a type has, depth first.  The definitions are given with the latest
first, and a definition can use only those before it. -/
def DeclaredTy.leaves : List Layout → DeclaredTy → List ScalarPath
  | _, .scalar ty => [⟨[], ty⟩]
  | [], .struct _ => []
  | layout :: earlier, .struct name =>
      if layout.name = name then
        layout.components.flatMap fun c => c.spread (DeclaredTy.leaves earlier c.ty)
      else DeclaredTy.leaves earlier (.struct name)

def Component.leaves (layouts : List Layout) (c : Component) : List ScalarPath :=
  c.spread (c.ty.leaves layouts)

/-- A path that follows the names down to a component, and there has an index above its bound, or
more or fewer indices than there are bounds. -/
inductive Component.Strays : List Layout → Component → List Step → Prop where
  | here {layouts : List Layout} {c : Component} {indices : List Nat} {steps : List Step}
      (hindices : ¬ List.Forall₂ (· ≤ ·) indices c.bounds) :
      Strays layouts c (⟨c.name, indices⟩ :: steps)
  | deeper {newer earlier : List Layout} {layout : Layout} {c m : Component} {indices : List Nat}
      {steps : List Step} (hty : c.ty = .struct layout.name)
      (hnewer : ∀ other ∈ newer, other.name ≠ layout.name) (hm : m ∈ layout.components)
      (hstrays : Strays earlier m steps) :
      Strays (newer ++ layout :: earlier) c (⟨c.name, indices⟩ :: steps)

/-- The name is a word, and the indices can be read. -/
structure Step.Proper (s : Step) : Prop where
  name : IsWord s.name
  indices : ∀ n ∈ s.indices, n < Text.wordBound

/-- The name is a word, and the bounds can be read. -/
structure Component.Proper (c : Component) : Prop where
  name : IsWord c.name
  bounds : ∀ bound ∈ c.bounds, bound < Text.wordBound

structure Layout.Proper (layout : Layout) : Prop where
  components : ∀ c ∈ layout.components, c.Proper
  distinct : (layout.components.map (·.name)).Nodup

/-! ## Indices -/

theorem mem_tuples {indices bounds : List Nat} :
    indices ∈ tuples bounds ↔ List.Forall₂ (· ≤ ·) indices bounds := by
  induction bounds generalizing indices with
  | nil => simp [tuples]
  | cons bound bounds ih =>
    simp only [tuples, List.mem_flatMap, List.mem_range, List.mem_map, ih]
    constructor
    · rintro ⟨index, hindex, others, hothers, rfl⟩
      exact .cons (by omega) hothers
    · rintro (_ | ⟨hindex, hothers⟩)
      exact ⟨_, by omega, _, hothers, rfl⟩

theorem tuples_nodup (bounds : List Nat) : (tuples bounds).Nodup := by
  induction bounds with
  | nil => simp [tuples]
  | cons bound bounds ih =>
    rw [tuples, List.nodup_flatMap]
    constructor
    · intro index _
      exact ih.map fun others others' h => (List.cons.inj h).2
    · refine List.nodup_range.imp ?_
      intro index index' hne
      simp only [Function.onFun, List.disjoint_left, List.mem_map]
      rintro _ ⟨others, -, rfl⟩ ⟨others', -, h⟩
      exact hne (List.cons.inj h).1.symm

theorem lt_wordBound_of_mem_tuples {indices bounds : List Nat} (h : indices ∈ tuples bounds)
    (hbounds : ∀ bound ∈ bounds, bound < Text.wordBound) : ∀ n ∈ indices, n < Text.wordBound := by
  rw [mem_tuples] at h
  induction h with
  | nil => simp
  | cons hle _ ih =>
    simp only [List.forall_mem_cons] at hbounds ⊢
    exact ⟨Nat.lt_of_le_of_lt hle hbounds.1, ih hbounds.2⟩

/-- The names of the elements are the name of the array with all admitted indices behind it. -/
theorem allElements_eq (base : String) (bounds : List Nat) :
    allElements base bounds =
      (tuples bounds).map fun indices =>
        base ++ String.join (indices.map fun index => "[" ++ toString index ++ "]") := by
  induction bounds generalizing base with
  | nil => simp [allElements, tuples]
  | cons bound bounds ih =>
    simp only [allElements, tuples, ih, List.map_flatMap, List.map_map, indexed]
    refine List.flatMap_congr fun index _ => List.map_congr_left fun indices _ => ?_
    simp [String.append_assoc]

/-! ## Paths to the scalars of a variable -/

theorem Component.mem_spread {c : Component} {below : List ScalarPath} {leaf : ScalarPath} :
    leaf ∈ c.spread below ↔
      ∃ indices ∈ tuples c.bounds, ∃ low ∈ below, low.under ⟨c.name, indices⟩ = leaf := by
  simp [spread]

theorem DeclaredTy.leaves_struct {newer earlier : List Layout} {layout : Layout}
    (hnewer : ∀ other ∈ newer, other.name ≠ layout.name) :
    (DeclaredTy.struct layout.name).leaves (newer ++ layout :: earlier) =
      layout.components.flatMap (Component.leaves earlier) := by
  induction newer with
  | nil => exact if_pos rfl
  | cons other newer ih =>
    rw [List.cons_append, leaves, if_neg (hnewer other (by simp))]
    exact ih fun l hl => hnewer l (by simp [hl])

namespace Component

variable {c : Component} {below : List ScalarPath}

theorem spread_proper (hc : c.Proper) (hbelow : ∀ leaf ∈ below, ∀ s ∈ leaf.steps, s.Proper) :
    ∀ leaf ∈ c.spread below, ∀ s ∈ leaf.steps, s.Proper := by
  intro leaf hleaf
  obtain ⟨indices, hindices, low, hlow, rfl⟩ := mem_spread.mp hleaf
  simp only [ScalarPath.under, List.forall_mem_cons]
  exact ⟨⟨hc.name, lt_wordBound_of_mem_tuples hindices hc.bounds⟩, hbelow low hlow⟩

/-- Paths to different elements differ in the first step. -/
theorem spread_apart (hbelow : below.Pairwise ScalarPath.Apart) :
    (c.spread below).Pairwise ScalarPath.Apart := by
  rw [spread, List.pairwise_flatMap]
  constructor
  · intro indices _
    rw [List.pairwise_map]
    exact hbelow.imp fun hne heq => hne (List.cons.inj heq).2
  · refine (tuples_nodup c.bounds).imp ?_
    intro indices indices' hne leaf hleaf leaf' hleaf' heq
    obtain ⟨low, -, rfl⟩ := List.mem_map.mp hleaf
    obtain ⟨low', -, rfl⟩ := List.mem_map.mp hleaf'
    have hstep := (List.cons.inj heq).1
    exact hne (congrArg Step.indices hstep)

theorem head_of_mem_spread {leaf : ScalarPath} (h : leaf ∈ c.spread below) :
    ∃ indices steps, leaf.steps = ⟨c.name, indices⟩ :: steps := by
  obtain ⟨indices, -, low, -, rfl⟩ := mem_spread.mp h
  exact ⟨indices, low.steps, rfl⟩

end Component

namespace DeclaredTy

variable {layouts : List Layout}

theorem leaves_proper (hlayouts : ∀ layout ∈ layouts, ∀ c ∈ layout.components, c.Proper)
    (ty : DeclaredTy) : ∀ leaf ∈ ty.leaves layouts, ∀ s ∈ leaf.steps, s.Proper := by
  fun_induction DeclaredTy.leaves layouts ty with
  | case1 layouts ty => simp
  | case2 name => simp
  | case3 layout earlier ih =>
    intro leaf hleaf
    obtain ⟨c, hc, hleaf⟩ := List.mem_flatMap.mp hleaf
    have hbelow := ih c fun l hl => hlayouts l (by simp [hl])
    exact Component.spread_proper (hlayouts layout (by simp) c hc) hbelow leaf hleaf
  | case4 layout earlier name hne ih => exact ih fun l hl => hlayouts l (by simp [hl])

theorem leaves_apart (hlayouts : ∀ layout ∈ layouts, layout.Proper) (ty : DeclaredTy) :
    (ty.leaves layouts).Pairwise ScalarPath.Apart := by
  fun_induction DeclaredTy.leaves layouts ty with
  | case1 layouts ty => simp
  | case2 name => simp
  | case3 layout earlier ih =>
    have hlayout := hlayouts layout (by simp)
    rw [List.pairwise_flatMap]
    refine ⟨fun c _ => Component.spread_apart (ih c fun l hl => hlayouts l (by simp [hl])), ?_⟩
    refine (List.pairwise_map.mp hlayout.distinct).imp ?_
    intro c m hne leaf hleaf leaf' hleaf' heq
    obtain ⟨indices, steps, hsteps⟩ := Component.head_of_mem_spread hleaf
    obtain ⟨indices', steps', hsteps'⟩ := Component.head_of_mem_spread hleaf'
    rw [hsteps, hsteps'] at heq
    exact hne (congrArg Step.name (List.cons.inj heq).1)
  | case4 layout earlier name hne ih => exact ih fun l hl => hlayouts l (by simp [hl])

end DeclaredTy

namespace Component

variable {layouts : List Layout} {c : Component}

theorem Strays.head {steps : List Step} (h : c.Strays layouts steps) :
    ∃ indices more, steps = ⟨c.name, indices⟩ :: more := by
  cases h with
  | here => exact ⟨_, _, rfl⟩
  | deeper => exact ⟨_, _, rfl⟩

/-- No scalar of a component is at the end of a path that strays. -/
theorem Strays.ne_leaf {steps : List Step} (h : c.Strays layouts steps)
    (hlayouts : ∀ layout ∈ layouts, layout.Proper) :
    ∀ leaf ∈ c.leaves layouts, leaf.steps ≠ steps := by
  induction h with
  | here hindices =>
    intro leaf hleaf heq
    obtain ⟨indices, hfits, low, -, rfl⟩ := mem_spread.mp hleaf
    have hstep := (List.cons.inj heq).1
    rw [Step.mk.injEq] at hstep
    exact hindices (hstep.2 ▸ mem_tuples.mp hfits)
  | @deeper newer earlier layout c m indices steps hty hnewer hm hstrays ih =>
    intro leaf hleaf heq
    obtain ⟨_, -, low, hlow, rfl⟩ := mem_spread.mp hleaf
    rw [hty, DeclaredTy.leaves_struct hnewer] at hlow
    obtain ⟨other, hother, hlow⟩ := List.mem_flatMap.mp hlow
    have hsteps : low.steps = steps := (List.cons.inj heq).2
    -- The name that the path goes on with tells which component it is.
    have hname : other.name = m.name := by
      obtain ⟨_, _, hhead⟩ := head_of_mem_spread hlow
      obtain ⟨_, _, hhead'⟩ := hstrays.head
      rw [hsteps, hhead'] at hhead
      exact (congrArg Step.name (List.cons.inj hhead).1).symm
    have hlayout := hlayouts layout (by simp)
    obtain rfl := List.inj_on_of_nodup_map hlayout.distinct hother hm hname
    exact ih (fun l hl => hlayouts l (by simp [hl])) low hlow hsteps

end Component

/-! ## Struct tables -/

def ScalarPath.member (leaf : ScalarPath) : Member := ⟨pathName leaf.steps, leaf.ty, .var⟩

def StructItem.component? : StructItem → Option Component
  | .skipped _ => none
  | .member spec name bounds _ => some ⟨name.valueD, spec.declared, bounds.map Index.bound⟩

/-- The members that the items of a definition write. -/
def writtenComponents (items : List StructItem) : List Component :=
  items.filterMap StructItem.component?

def Declarator.component (ty : DeclaredTy) (d : Declarator) : Component :=
  ⟨d.name.valueD, ty, d.bounds.map Index.bound⟩

/-- The table comes from definitions without a fault, each with distinct names for its members. -/
inductive Built : StructTable → List Layout → Prop where
  | empty : Built .empty []
  | define {env : Env} {layouts : List Layout} {keyword : Token} {name opening : Terminal}
      {items : List StructItem} {closing semicolon : Terminal} (hbuilt : Built env.structs layouts)
      (haccepted : Faultless
        ((Declaration.structDef keyword name opening items closing semicolon).lower env).events)
      (hwords : ∀ c ∈ writtenComponents items, IsWord c.name)
      (hdistinct : ((writtenComponents items).map (·.name)).Nodup) :
      Built ((Declaration.structDef keyword name opening items closing semicolon).lower
        env).env.structs (⟨name.valueD, writtenComponents items⟩ :: layouts)

/-- The scalars of a struct, none if it is not defined. -/
def membersOf (table : StructTable) (name : String) : List Member :=
  ((table.get? name).map StructDef.members).getD []

/-- The table has for each struct the scalars that the definitions give it. -/
def Describes (table : StructTable) (layouts : List Layout) : Prop :=
  ∀ name, membersOf table name =
    ((DeclaredTy.struct name).leaves layouts).map ScalarPath.member

theorem DeclaredTy.members_struct (table : StructTable) (structName : String)
    (names : List String) :
    (DeclaredTy.struct structName).members table names =
      names.flatMap fun name => (membersOf table structName).map (Member.under name) := by
  simp only [DeclaredTy.members, membersOf]
  cases table.get? structName with
  | none => simp
  | some d => rfl

theorem pathName_single (s : Step) :
    pathName [s] =
      s.name ++ String.join (s.indices.map fun index => "[" ++ toString index ++ "]") := by
  simp [pathName, pathText, Step.part, PathPart.text, Function.comp_def]

theorem pathName_cons (s : Step) {steps : List Step} (hne : steps ≠ []) :
    pathName (s :: steps) = pathName [s] ++ "." ++ pathName steps := by
  obtain ⟨next, more, rfl⟩ := List.exists_cons_of_ne_nil hne
  simp [pathName, pathText, String.append_assoc]

theorem DeclaredTy.steps_ne_nil {layouts : List Layout} {name : String} :
    ∀ leaf ∈ (DeclaredTy.struct name).leaves layouts, leaf.steps ≠ [] := by
  induction layouts with
  | nil => simp [leaves]
  | cons layout earlier ih =>
    rw [leaves]
    split
    · intro leaf hleaf
      obtain ⟨c, -, hleaf⟩ := List.mem_flatMap.mp hleaf
      obtain ⟨indices, steps, hsteps⟩ := Component.head_of_mem_spread hleaf
      simp [hsteps]
    · exact ih

/-- The scalars that a variable is stored as are those that its paths lead to. -/
theorem Describes.members_eq {table : StructTable} {layouts : List Layout}
    (h : Describes table layouts) (c : Component) :
    c.ty.members table (allElements c.name c.bounds) =
      (c.leaves layouts).map ScalarPath.member := by
  obtain ⟨name, ty, bounds⟩ := c
  have hnames : allElements name bounds =
      (tuples bounds).map fun indices => pathName [⟨name, indices⟩] := by
    simp only [allElements_eq, pathName_single]
  rw [hnames]
  simp only [Component.leaves, Component.spread, List.map_flatMap, List.map_map]
  cases ty with
  | scalar ty =>
    simp only [DeclaredTy.members, DeclaredTy.leaves, List.map_map, List.map_cons, List.map_nil]
    exact List.map_eq_flatMap
  | struct structName =>
    rw [DeclaredTy.members_struct, h structName, List.flatMap_map]
    refine List.flatMap_congr fun indices _ => ?_
    rw [List.map_map]
    refine List.map_congr_left fun leaf hleaf => ?_
    simp only [Function.comp_apply, ScalarPath.member, ScalarPath.under, Member.under,
      pathName_cons _ (DeclaredTy.steps_ne_nil leaf hleaf)]

theorem Index.bound_lt (i : Index) : i.bound < Text.wordBound := by
  unfold Index.bound
  cases hbound : i.number.value?.bind Text.word? with
  | none => decide
  | some n =>
    obtain ⟨numeral, -, hnumeral⟩ := Option.bind_eq_some_iff.mp hbound
    exact Text.lt_of_word hnumeral

theorem boundsOf_lt (indices : List Index) :
    ∀ bound ∈ indices.map Index.bound, bound < Text.wordBound :=
  List.forall_mem_map.mpr fun i _ => i.bound_lt

theorem StructItem.bounds_lt {item : StructItem} {c : Component} (h : item.component? = some c) :
    ∀ bound ∈ c.bounds, bound < Text.wordBound := by
  cases item with
  | skipped token => simp [component?] at h
  | member spec name bounds semicolon =>
    cases h
    exact boundsOf_lt bounds

theorem Describes.flatMap_members {table : StructTable} {layouts : List Layout}
    (h : Describes table layouts) (items : List StructItem) :
    items.flatMap (StructItem.members table) =
      ((writtenComponents items).flatMap (Component.leaves layouts)).map ScalarPath.member := by
  induction items with
  | nil => rfl
  | cons item items ih =>
    cases item with
    | skipped token => exact ih
    | member spec name bounds semicolon =>
      simp only [writtenComponents, List.filterMap_cons, StructItem.component?, List.flatMap_cons,
        List.map_append] at ih ⊢
      rw [ih]
      congr 1
      exact h.members_eq ⟨name.valueD, spec.declared, bounds.map Index.bound⟩

/-- A definition without a fault has a new name. -/
theorem lowerStructDef_ensures_new (keyword : Token) (name opening : Terminal)
    (items : List StructItem) (closing semicolon : Terminal) (env : Env) :
    (lowerStructDef keyword name opening items closing semicolon).Ensures env fun _ _ _ =>
      env.structs.isDefined name.valueD = false := by
  simp only [lowerStructDef, ensures_bind, ensures_consume, ensures_terminal, ensures_env]
  intro token hname
  split
  · simp
  next hnew => exact fun _ => Bool.eq_false_iff.mpr hnew

theorem Describes.define {table : StructTable} {layouts : List Layout}
    (h : Describes table layouts) {name : String} (hnew : table.isDefined name = false)
    (items : List StructItem) :
    Describes (table.define ⟨name, items.flatMap (StructItem.members table)⟩)
      (⟨name, writtenComponents items⟩ :: layouts) := by
  intro other
  simp only [membersOf, StructTable.define, hnew, Bool.false_eq_true, if_false, StructTable.get?,
    List.find?_cons, DeclaredTy.leaves]
  by_cases hname : name = other
  · simp only [hname, decide_true, if_true, Option.map_some, Option.getD_some]
    exact h.flatMap_members items
  · simp only [hname, decide_false, if_false]
    exact h other

namespace Built

theorem describes {table : StructTable} {layouts : List Layout} (h : Built table layouts) :
    Describes table layouts := by
  induction h with
  | empty => exact fun _ => rfl
  | @define env layouts keyword name opening items closing semicolon _ haccepted _ _ ih =>
    have hnew := lowerStructDef_ensures_new keyword name opening items closing semicolon env
      haccepted
    have hrealized := lowerStructDef_realizes keyword name opening items closing semicolon env
      haccepted
    have hstructs := congrArg Static.structs hrealized.static
    simp only [Env.static, Declaration.elaborate] at hstructs
    rw [Declaration.lower, hstructs]
    exact ih.define hnew items

theorem proper {table : StructTable} {layouts : List Layout} (h : Built table layouts) :
    ∀ layout ∈ layouts, layout.Proper := by
  induction h with
  | empty => simp
  | @define env layouts _ name _ items _ _ _ _ hwords hdistinct ih =>
    rw [List.forall_mem_cons]
    refine ⟨⟨fun c hc => ⟨hwords c hc, ?_⟩, hdistinct⟩, ih⟩
    obtain ⟨item, -, hitem⟩ := List.mem_filterMap.mp hc
    exact StructItem.bounds_lt hitem

end Built

/-! ## Symbols -/

def ScalarPath.symbol (depth offset : Nat) (leaf : ScalarPath) : Symbol :=
  ⟨pathName leaf.steps, .var, leaf.ty, depth, some offset⟩

/-- Variables for scalars, one slot after the other. -/
def layOut (depth offset : Nat) (leaves : List ScalarPath) : List Symbol :=
  leaves.mapIdx fun i leaf => leaf.symbol depth (offset + i)

theorem layOut_cons (depth offset : Nat) (leaf : ScalarPath) (leaves : List ScalarPath) :
    layOut depth offset (leaf :: leaves) =
      leaf.symbol depth offset :: layOut depth (offset + 1) leaves := by
  simp [layOut, List.mapIdx_cons, Nat.add_assoc, Nat.add_comm 1]

theorem map_name_layOut (depth offset : Nat) (leaves : List ScalarPath) :
    (layOut depth offset leaves).map (·.name) = leaves.map fun leaf => pathName leaf.steps := by
  induction leaves generalizing offset with
  | nil => rfl
  | cons leaf leaves ih =>
    rw [layOut_cons, List.map_cons, ih]
    rfl

/-- The scope was extended by other names at most, and no scope inside of it declares the name. -/
def ScopeStack.Keeps (st : ScopeStack) (scope : Scope) (name : String) : Prop :=
  ∃ inside later outside newer, st.scopes = inside ++ later :: outside ∧
    later.entries = newer ++ scope.entries ∧ (∀ t ∈ newer, t.name ≠ name) ∧
      ∀ other ∈ inside, other.Lacks name

theorem ScopeStack.declareAll_leaves (leaves : List ScalarPath) (scope : Scope) (outer : List Scope)
    (externals : Scope) (procedures : List String) :
    ∃ grown : Scope,
      declareAll ⟨scope :: outer, externals, procedures⟩ (leaves.map ScalarPath.member) =
        ⟨grown :: outer, externals, procedures⟩ ∧
      grown.symbols = scope.symbols ++ layOut outer.length scope.slots leaves := by
  induction leaves generalizing scope with
  | nil => exact ⟨scope, rfl, by simp [layOut]⟩
  | cons leaf leaves ih =>
    obtain ⟨grown, hgrown, hsymbols⟩ := ih (scope.push (leaf.symbol outer.length scope.slots))
    refine ⟨grown, ?_, ?_⟩
    · rw [← hgrown, List.map_cons, declareAll, List.foldl_cons, declareStorage_cons]
      rfl
    · rw [hsymbols, layOut_cons, Scope.symbols_push, List.append_assoc, List.singleton_append]
      rfl

theorem Scope.latest_of_symbols {scope : Scope} {older newer : List Symbol} {s : Symbol}
    (h : scope.symbols = older ++ s :: newer) (hnewer : ∀ t ∈ newer, t.name ≠ s.name) :
    scope.Latest s.name s := by
  have hentries : scope.entries = newer.reverse ++ s :: older.reverse := by
    simpa [symbols] using congrArg List.reverse h
  exact ⟨rfl, newer.reverse, older.reverse, hentries, by simpa using hnewer⟩

theorem ScopeStack.Keeps.resolve_eq {st : ScopeStack} {scope : Scope} {name : String} {s : Symbol}
    (h : st.Keeps scope name) (hlatest : scope.Latest name s) :
    st.resolve name = some ⟨s, false⟩ := by
  obtain ⟨inside, later, outside, newer, hscopes, hentries, hnewer, hinside⟩ := h
  obtain ⟨hname, others, older, hscope, hothers⟩ := hlatest
  rw [resolve_eq_some_iff]
  refine .declared hscopes hinside ⟨hname, newer ++ others, older, ?_, ?_⟩
  · rw [hentries, hscope, List.append_assoc]
  · simpa [or_imp, forall_and] using ⟨hnewer, hothers⟩

/-- Symbols with names of their own are all found, in the order in which they were added. -/
theorem Scope.latest_of_append {scope grown : Scope} {created : List Symbol}
    (h : grown.symbols = scope.symbols ++ created) (hnodup : (created.map (·.name)).Nodup)
    {s : Symbol} (hs : s ∈ created) : grown.Latest s.name s := by
  obtain ⟨older, newer, rfl⟩ := List.append_of_mem hs
  rw [← List.append_assoc] at h
  refine latest_of_symbols h fun t ht heq => ?_
  rw [List.map_append, List.map_cons] at hnodup
  have hfresh := (List.nodup_cons.mp hnodup.of_append_right).1
  exact hfresh (List.mem_map.mpr ⟨t, ht, heq⟩)

section

variable {layouts : List Layout} {c : Component}

theorem Component.leaves_proper_steps (hc : c.Proper)
    (hlayouts : ∀ layout ∈ layouts, ∀ c ∈ layout.components, c.Proper) {leaf : ScalarPath}
    (h : leaf ∈ c.leaves layouts) : leaf.steps ≠ [] ∧ ∀ s ∈ leaf.steps, s.Proper := by
  obtain ⟨indices, steps, hsteps⟩ := head_of_mem_spread h
  exact ⟨by simp [hsteps], spread_proper hc (c.ty.leaves_proper hlayouts) leaf h⟩

theorem Component.leaves_steps (hc : c.Proper) (hlayouts : ∀ layout ∈ layouts, layout.Proper)
    {leaf : ScalarPath} (h : leaf ∈ c.leaves layouts) :
    leaf.steps ≠ [] ∧ ∀ s ∈ leaf.steps, s.Proper :=
  leaves_proper_steps hc (fun l hl => (hlayouts l hl).components) h

/-- No two scalars of a variable share a name. -/
theorem Component.leafNames_nodup (hc : c.Proper) (hlayouts : ∀ layout ∈ layouts, layout.Proper) :
    ((c.leaves layouts).map fun leaf => pathName leaf.steps).Nodup := by
  rw [List.Nodup, List.pairwise_map]
  refine (spread_apart (c.ty.leaves_apart hlayouts)).imp_of_mem ?_
  intro leaf leaf' hleaf hleaf' hne heq
  obtain ⟨hsteps, hproper⟩ := leaves_steps hc hlayouts hleaf
  obtain ⟨hsteps', hproper'⟩ := leaves_steps hc hlayouts hleaf'
  exact hne (pathName_inj hsteps hsteps' (fun s hs => (hproper s hs).name)
    (fun s hs => (hproper' s hs).name) heq)

/-- A path that strays is read as a name of its own. -/
theorem Component.Strays.designator_ne (hc : c.Proper)
    (hlayouts : ∀ layout ∈ layouts, layout.Proper) {s : Session} {steps : List Step}
    (hfaces : s.Faces steps) (hstrays : c.Strays layouts steps) :
    ∃ name, s.designator.1 = some name ∧
      ∀ leaf ∈ c.leaves layouts, pathName leaf.steps ≠ name := by
  obtain ⟨name, hname, hinj⟩ := hfaces.designator_inj
  refine ⟨name, hname, fun leaf hleaf heq => ?_⟩
  obtain ⟨hne, hproper⟩ := leaves_steps hc hlayouts hleaf
  have hsteps := hinj leaf.steps hne (fun step hstep => (hproper step hstep).name) heq
  exact hstrays.ne_leaf hlayouts leaf hleaf hsteps.symm

end

/-- What a variable without a fault adds to the scopes. -/
theorem Declarator.lower_scopes {env : Env} {layouts : List Layout} {ty : DeclaredTy}
    {d : Declarator} {scope : Scope} {outer : List Scope} (hbuilt : Built env.structs layouts)
    (hty : ty.Proper) (hscopes : env.scopes.scopes = scope :: outer)
    (haccepted : Faultless (d.lower ty env).events) :
    ∃ grown : Scope, (d.lower ty env).env.scopes = { env.scopes with scopes := grown :: outer } ∧
      grown.symbols =
        scope.symbols ++ layOut outer.length scope.slots ((d.component ty).leaves layouts) := by
  have hafter := congrArg Static.scopes (Declarator.lower_realizes hty d env haccepted).static
  have hmembers := hbuilt.describes.members_eq (d.component ty)
  obtain ⟨grown, hgrown, hsymbols⟩ := ScopeStack.declareAll_leaves ((d.component ty).leaves layouts)
    scope outer env.scopes.externals env.scopes.openProcedures
  refine ⟨grown, ?_, hsymbols⟩
  rw [← hgrown, ← hmembers, ← hscopes]
  exact hafter

/-- A variable that is declared without a fault adds its scalars to the current scope, depth first
and one slot after the other.  A designator that writes the path to one of them is read as its name,
and the name denotes it until it is declared again.  A path with a wrong index, or with too many or
too few, is read as a name that the declaration has not added. -/
theorem flattening_agrees_with_designators {env : Env} {layouts : List Layout} {ty : DeclaredTy}
    {d : Declarator} {scope : Scope} {outer : List Scope} (hbuilt : Built env.structs layouts)
    (hty : ty.Proper) (hname : IsWord d.name.valueD) (hscopes : env.scopes.scopes = scope :: outer)
    (haccepted : Faultless (d.lower ty env).events) :
    ∃ (grown : Scope) (created : List Symbol),
      (d.lower ty env).env.scopes = { env.scopes with scopes := grown :: outer } ∧
      grown.symbols = scope.symbols ++ created ∧
      created = layOut outer.length scope.slots ((d.component ty).leaves layouts) ∧
      (∀ (i : Nat) (leaf : ScalarPath) (symbol : Symbol),
        ((d.component ty).leaves layouts)[i]? = some leaf → created[i]? = some symbol →
          (∀ s : Session, s.Faces leaf.steps → s.designator.1 = some symbol.name) ∧
          ∀ st : ScopeStack, st.Keeps grown symbol.name →
            st.resolve symbol.name = some ⟨symbol, false⟩) ∧
      ∀ (s : Session) (steps : List Step), s.Faces steps → (d.component ty).Strays layouts steps →
        ∃ name, s.designator.1 = some name ∧ ∀ symbol ∈ created, symbol.name ≠ name := by
  have hproper : (d.component ty).Proper := ⟨hname, boundsOf_lt d.bounds⟩
  have hlayouts := hbuilt.proper
  obtain ⟨grown, hafter, hsymbols⟩ := Declarator.lower_scopes hbuilt hty hscopes haccepted
  refine ⟨grown, _, hafter, hsymbols, rfl, ?_, ?_⟩
  · intro i leaf symbol hleaf hsymbol
    have hmem := List.mem_of_getElem? hleaf
    have hnames := (d.component ty).leafNames_nodup hproper hlayouts
    rw [← map_name_layOut outer.length scope.slots] at hnames
    have hlatest := Scope.latest_of_append hsymbols hnames (List.mem_of_getElem? hsymbol)
    refine ⟨fun s hfaces => ?_, fun st hkeeps => hkeeps.resolve_eq hlatest⟩
    have hname : symbol.name = pathName leaf.steps := by
      simp only [layOut, List.getElem?_mapIdx, hleaf, Option.map_some] at hsymbol
      cases hsymbol
      rfl
    obtain ⟨-, hsteps⟩ := Component.leaves_steps hproper hlayouts hmem
    rw [hname]
    exact hfaces.designator_eq fun step hstep => (hsteps step hstep).indices
  · intro s steps hfaces hstrays
    obtain ⟨name, hread, hne⟩ := hstrays.designator_ne hproper hlayouts hfaces
    refine ⟨name, hread, fun symbol hsymbol => ?_⟩
    have hmem := List.mem_map_of_mem (f := (·.name)) hsymbol
    rw [map_name_layOut] at hmem
    obtain ⟨leaf, hleaf, heq⟩ := List.mem_map.mp hmem
    exact heq ▸ hne leaf hleaf

/-! ## A table with one struct -/

/-- A token whose place does not matter. -/
def placeless (kind : TokenKind) (value : String) : Token :=
  ⟨kind, value, ⟨0, 0, "shell"⟩, ⟨0, 0, "shell"⟩⟩

def sampleIndex (numeral : String) : Index :=
  ⟨placeless .openBracket "[", .read (placeless .number numeral),
    .read (placeless .closeBracket "]")⟩

def sampleMember (kind : TokenKind) (name : String) (bounds : List String) : StructItem :=
  .member (.scalar (.read (placeless kind ""))) (.read (placeless .identifier name))
    (bounds.map sampleIndex) (.read (placeless .semicolon ";"))

/-- The definition of a struct with an integer and an array of two Booleans. -/
def pairDefinition : Declaration :=
  .structDef (placeless .kwStruct "struct") (.read (placeless .identifier "pair"))
    (.read (placeless .openCurly "\x7b"))
    [sampleMember .kwInt "x" [], sampleMember .kwBool "flag" ["1"]]
    (.read (placeless .closeCurly "\x7d")) (.read (placeless .semicolon ";"))

/-- What is known behind the definition, in a program without any variables so far. -/
def pairEnv : Env :=
  (pairDefinition.lower { Env.start (placeless .eof "") with
    scopes := ScopeStack.empty.openScope }).env

def pairLayout : Layout := ⟨"pair", [⟨"x", .scalar .int, []⟩, ⟨"flag", .scalar .bool, [1]⟩]⟩

theorem pairEnv_built : Built pairEnv.structs [pairLayout] :=
  .define .empty (by decide +kernel) (by decide +kernel) (by decide +kernel)

/-- Two of the structs. -/
def pairDeclarator : Declarator := ⟨.read (placeless .identifier "p"), [sampleIndex "01"]⟩

/-- Tokens for the second of the Booleans in the second of the structs. -/
def pairSession : Session :=
  .start .full (.ofTokens [placeless .identifier "p", placeless .openBracket "[",
    placeless .number "01", placeless .closeBracket "]", placeless .dot ".",
    placeless .identifier "flag", placeless .openBracket "[", placeless .number "001",
    placeless .closeBracket "]"] "shell") 2

theorem pairSession_faces : pairSession.Faces [⟨"p", [1]⟩, ⟨"flag", [1]⟩] := by
  refine @Session.Faces.mk _ pairSession.window.rest [⟨"p", ["01"]⟩, ⟨"flag", ["001"]⟩]
    (.ofTokens [] "shell") rfl ?_ ?_ (by decide) (by decide)
  · exact .mk rfl (.cons rfl rfl rfl .nil) (.cons rfl rfl (.cons rfl rfl rfl .nil) .nil)
  · have hone : TokenKind.number.Spells "01" ∧ TokenKind.number.Spells "001" :=
      ⟨⟨by decide, List.all_eq_true.mp (by decide +kernel)⟩,
        ⟨by decide, List.all_eq_true.mp (by decide +kernel)⟩⟩
    simp only [List.forall_mem_cons, List.not_mem_nil, false_imp_iff, implies_true, and_true]
    exact ⟨⟨by decide +kernel, by simpa using hone.1⟩, ⟨by decide +kernel, by simpa using hone.2⟩⟩

/-- Six scalars are declared.  The last of them is read from numerals with leading zeros, and an index
of two leads to a name that is none of theirs. -/
theorem flattening_agrees_with_designators_pair :
    Built pairEnv.structs [pairLayout] ∧
    Faultless (pairDeclarator.lower (.struct "pair") pairEnv).events ∧
    ∃ (grown : Scope) (created : List Symbol),
      (pairDeclarator.lower (.struct "pair") pairEnv).env.scopes =
        { pairEnv.scopes with scopes := [grown] } ∧
      grown.symbols = created ∧
      created.map (fun s => (s.name, s.ty, s.offset)) =
        [("p[0].x", .int, some 0), ("p[0].flag[0]", .bool, some 1), ("p[0].flag[1]", .bool, some 2),
          ("p[1].x", .int, some 3), ("p[1].flag[0]", .bool, some 4),
          ("p[1].flag[1]", .bool, some 5)] ∧
      (∃ symbol ∈ created, pairSession.designator.1 = some symbol.name ∧
        (pairDeclarator.lower (.struct "pair") pairEnv).env.scopes.resolve symbol.name =
          some ⟨symbol, false⟩) ∧
      ∀ s : Session, s.Faces [⟨"p", [2]⟩, ⟨"x", []⟩] →
        ∃ name, s.designator.1 = some name ∧ ∀ symbol ∈ created, symbol.name ≠ name := by
  have haccepted : Faultless (pairDeclarator.lower (.struct "pair") pairEnv).events := by
    decide +kernel
  have hword : IsWord pairDeclarator.name.valueD := by decide +kernel
  have hproper : DeclaredTy.Proper (.struct "pair") := trivial
  obtain ⟨grown, created, hscopes, hsymbols, hcreated, hleaves, hstrays⟩ :=
    flattening_agrees_with_designators pairEnv_built hproper hword rfl haccepted
  have hlast : created[5]? = some ⟨"p[1].flag[1]", .var, .bool, 0, some 5⟩ := by
    rw [hcreated]
    decide +kernel
  obtain ⟨hread, hresolve⟩ :=
    hleaves 5 ⟨[⟨"p", [1]⟩, ⟨"flag", [1]⟩], .bool⟩ _ (by decide +kernel) hlast
  refine ⟨pairEnv_built, haccepted, grown, created, hscopes, hsymbols, ?_,
    ⟨_, List.mem_of_getElem? hlast, hread pairSession pairSession_faces, ?_⟩, ?_⟩
  · rw [hcreated]
    decide +kernel
  · exact hresolve _ ⟨[], grown, [], [], by rw [hscopes]; rfl, rfl, by simp, by simp⟩
  · intro s hfaces
    refine hstrays s _ hfaces (.here ?_)
    decide +kernel

end SlotLang
