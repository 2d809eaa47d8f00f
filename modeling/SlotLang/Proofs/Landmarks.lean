import SlotLang.Proofs.Accesses
import SlotLang.Proofs.Flattening

/-!
# The landmarks of a program

What a program has to do with names can be told as one list: in the order of the text, the names that
it refers to, the things that it declares, and the procedures that it enters and leaves.  The list
comes from the tree alone.  What a landmark means depends on the scopes and the structs at its place,
and these are what the landmarks in front of it have made of an empty scope: so a program is followed
by a machine that takes one landmark after the other.

Lowering keeps step with this machine, whatever is wrong with the text.  The code of a program shows
the accesses to storage and the entries of procedures just as the machine has come by them, and lowering
ends with the scopes and structs of the machine.  Where lowering has no fault to report, the machine
has accepted every declaration on its way.
-/

namespace SlotLang

open Lowering Aggregate

/-- Something that a program does with names. -/
inductive Landmark where
  | refer (r : Reference)
  | constant (name : String) (ty : Ty)
  | declare (c : Component)
  | define (layout : Layout)
  | enter (name : String)
  | parameter (name : String) (ty : Ty)
  /-- The argument for the parameter at this place is stored. -/
  | argument (k : Nat)
  | leave
  | external (name : String) (kind : SymbolKind) (ty : Ty)
  /-- The subject of a switch, with the names that it refers to. -/
  | subject (references : List Reference)
  /-- A case of the switch computes its subject again. -/
  | again
  /-- The end of a switch. -/
  | settled
  deriving DecidableEq, Repr

/-! ## Declarations, accepted or not -/

/-- The scalars that the component consists of. -/
def Component.members (structs : StructTable) (c : Component) : List Member :=
  c.ty.members structs (allElements c.name c.bounds)

instance (structs : StructTable) (ty : DeclaredTy) (bounds : List Nat) :
    Decidable (ty.Oversized structs bounds) :=
  inferInstanceAs (Decidable (_ ∨ _ = none ∨ ∃ width ∈ ty.width? structs, _))

instance (structs : StructTable) (d : StructDef) (ty : DeclaredTy) (bounds : List Nat) :
    Decidable (ty.Overfills structs d bounds) :=
  inferInstanceAs (Decidable (_ ∨ _ = none ∨ ∃ width ∈ ty.width? structs, _))

/-- The definition with one more member, unless the member is left out. -/
def Aggregate.StructDef.extend (structs : StructTable) (d : StructDef) (c : Component) : StructDef :=
  if c.ty.Overfills structs d c.bounds then d
  else { d with members := d.members ++ c.members structs }

/-- The definition that the members of the layout make. -/
def Layout.build (structs : StructTable) (layout : Layout) : StructDef :=
  layout.components.foldl (StructDef.extend structs) (.new layout.name)

/-! ## Following landmarks -/

/-- What is known at a place of a program. -/
structure Stage where
  scopes : ScopeStack
  structs : StructTable
  /-- What the subjects of the open switches access, the innermost first. -/
  subjects : List (List Access)

namespace Stage

/-- A program starts with an empty scope. -/
def start : Stage := ⟨ScopeStack.empty.openScope, .empty, []⟩

def step (s : Stage) : Landmark → Stage
  | .refer _ | .argument _ | .again => s
  | .constant name ty => { s with scopes := (s.scopes.declareStorage name .const ty).2 }
  | .declare c =>
      if c.ty.Oversized s.structs c.bounds then s
      else { s with scopes := s.scopes.declareAll (c.members s.structs) }
  | .define layout => { s with structs := s.structs.define (layout.build s.structs) }
  | .enter name =>
      { s with scopes := ((s.scopes.declareProcedure name).2.enterProcedure name).2 }
  | .parameter name ty => { s with scopes := (s.scopes.declareLocal name .var ty).2 }
  | .leave => { s with scopes := s.scopes.exitProcedure.2 }
  | .external name kind ty => { s with scopes := (s.scopes.declareExternal name kind ty).2 }
  | .subject references => { s with subjects := accessesAt s.scopes references :: s.subjects }
  | .settled => { s with subjects := s.subjects.tail }

def run (s : Stage) (landmarks : List Landmark) : Stage := landmarks.foldl step s

/-- The accesses to storage that a landmark stands for. -/
def accesses (s : Stage) : Landmark → List Access
  | .refer r => r.accesses s.scopes
  | .argument k => [.argument k]
  | .again => s.subjects.headD []
  | _ => []

/-- What the code shows of a landmark. -/
def marksOf (s : Stage) : Landmark → List Mark
  | .enter name => [.entry (some (.named (s.scopes.labelFor name)))]
  | l => (s.accesses l).map Access.mark

def marks (s : Stage) : List Landmark → List Mark
  | [] => []
  | l :: more => s.marksOf l ++ (s.step l).marks more

/-- The property holds of every landmark at its place. -/
def Along (P : Stage → Landmark → Prop) (s : Stage) : List Landmark → Prop
  | [] => True
  | l :: more => P s l ∧ (s.step l).Along P more

/-- The declaration is taken as it is written. -/
def Accepted (s : Stage) : Landmark → Prop
  | .declare c => ¬ c.ty.Oversized s.structs c.bounds
  | .define layout => s.structs.isDefined layout.name = false ∧
      layout.build s.structs = ⟨layout.name, layout.components.flatMap (Component.members s.structs)⟩
  | _ => True

@[simp] theorem run_nil (s : Stage) : s.run [] = s := rfl

@[simp] theorem run_cons (s : Stage) (l : Landmark) (more : List Landmark) :
    s.run (l :: more) = (s.step l).run more := rfl

@[simp] theorem run_append (s : Stage) (first second : List Landmark) :
    s.run (first ++ second) = (s.run first).run second :=
  List.foldl_append

@[simp] theorem marks_append (s : Stage) (first second : List Landmark) :
    s.marks (first ++ second) = s.marks first ++ (s.run first).marks second := by
  induction first generalizing s with
  | nil => rfl
  | cons l first ih => simp [marks, ih]

variable {P : Stage → Landmark → Prop}

@[simp] theorem along_append (s : Stage) (first second : List Landmark) :
    s.Along P (first ++ second) ↔ s.Along P first ∧ (s.run first).Along P second := by
  induction first generalizing s with
  | nil => simp [Along]
  | cons l first ih => simp [Along, ih, and_assoc]

/-- A place of a program is the list of landmarks in front of it. -/
theorem Along.at_place {s : Stage} {landmarks front back : List Landmark} {l : Landmark}
    (h : s.Along P landmarks) (hplace : landmarks = front ++ l :: back) : P (s.run front) l := by
  rw [hplace, along_append] at h
  exact h.2.1

/-- References declare nothing. -/
theorem run_refer (s : Stage) (references : List Reference) :
    s.run (references.map .refer) = s := by
  induction references with
  | nil => rfl
  | cons r references ih => exact ih

theorem marks_refer (s : Stage) (references : List Reference) :
    s.marks (references.map .refer) = (accessesAt s.scopes references).map Access.mark := by
  induction references with
  | nil => rfl
  | cons r references ih =>
    rw [List.map_cons, marks, step, ih, accessesAt, accessesAt, List.flatMap_cons, List.map_append]
    rfl

theorem accepted_refer (s : Stage) (references : List Reference) :
    s.Along Accepted (references.map .refer) := by
  induction references with
  | nil => trivial
  | cons r references ih => exact ⟨trivial, ih⟩

end Stage

def Env.stage (env : Env) (subjects : List (List Access)) : Stage :=
  ⟨env.scopes, env.structs, subjects⟩

/-! ## Phrases that visit landmarks -/

/-- The outcome of a phrase is what the landmarks lead to from this stage. -/
structure Outcome.Visits {α : Type} (o : Outcome α) (s : Stage) (landmarks : List Landmark) :
    Prop where
  marks : marks o.code = s.marks landmarks
  stage : o.env.stage s.subjects = s.run landmarks
  accepted : Faultless o.events → s.Along Stage.Accepted landmarks

/-- Wherever the phrase stands inside of switches with these subjects, it has these landmarks. -/
def Visits {α : Type} (subjects : List (List Access)) (x : Lowering α)
    (landmarks : List Landmark) : Prop :=
  ∀ env : Env, (x env).Visits (env.stage subjects) landmarks

theorem Outcome.Visits.bind {α β : Type} {s : Stage} {env : Env} {first second : List Landmark}
    {x : Lowering α} {f : α → Lowering β} (hx : (x env).Visits s first)
    (hf : (f (x env).value (x env).env).Visits ((x env).env.stage s.subjects) second) :
    ((x >>= f) env).Visits s (first ++ second) where
  marks := by
    rw [bind_apply, SlotLang.marks_append, hx.marks, hf.marks, hx.stage, Stage.marks_append]
  stage := by
    rw [Stage.run_append, ← hx.stage]
    exact hf.stage
  accepted := by
    intro hfaultless
    rw [bind_apply, faultless_append] at hfaultless
    rw [Stage.along_append, ← hx.stage]
    exact ⟨hx.accepted hfaultless.1, hf.accepted hfaultless.2⟩

theorem StillAt.visits {α : Type} {st : ScopeStack} {x : Lowering α}
    {references : List Reference} (h : StillAt st x references) {env : Env} (henv : env.scopes = st)
    {subjects : List (List Access)} :
    (x env).Visits (env.stage subjects) (references.map .refer) := by
  obtain ⟨hscopes, hstructs, hmarks⟩ := h env henv
  refine ⟨?_, ?_, fun _ => Stage.accepted_refer _ references⟩
  · rw [hmarks, Stage.marks_refer]
    rfl
  · rw [Stage.run_refer]
    simp only [Env.stage, hscopes, hstructs]

namespace Visits

variable {α β : Type} {subjects : List (List Access)} {first second : List Landmark}
  {x : Lowering α} {f : α → Lowering β} {references : List Reference}

theorem bind (hx : Visits subjects x first) (hf : ∀ a, Visits subjects (f a) second) :
    Visits subjects (x >>= f) (first ++ second) :=
  fun env => (hx env).bind (hf _ _)

/-- A phrase that declares nothing. -/
theorem still (h : ∀ st, StillAt st x references) :
    Visits subjects x (references.map .refer) :=
  fun env => (h env.scopes).visits rfl

/-- A phrase that has nothing to do with names in front of another one. -/
theorem silently (hx : ∀ st, StillAt st x []) (hf : ∀ a, Visits subjects (f a) second) :
    Visits subjects (x >>= f) second :=
  bind (still hx) hf

/-- A phrase that has nothing to do with names behind another one. -/
theorem andThen (hx : Visits subjects x first) (hf : ∀ a st, StillAt st (f a) []) :
    Visits subjects (x >>= f) first := by
  simpa using hx.bind fun a => still (hf a)

theorem discard (hx : Visits subjects x first) : Visits subjects (Functor.discard x) first :=
  hx.andThen fun _ _ _ _ => ⟨rfl, rfl, rfl⟩

theorem pure (a : α) : Visits subjects (Pure.pure a : Lowering α) [] :=
  still fun _ => .pure a

theorem ofEnv {f : Env → Lowering β}
    (hf : ∀ env, (f env env).Visits (env.stage subjects) second) :
    Visits subjects (Lowering.env >>= f) second := hf

/-- A phrase that does nothing but move the stage along one landmark without marks. -/
theorem single {l : Landmark} (hmarks : ∀ s : Stage, s.marksOf l = [])
    (hx : ∀ env, SlotLang.marks (x env).code = [] ∧
      (x env).env.stage subjects = (env.stage subjects).step l ∧
      (Faultless (x env).events → (env.stage subjects).Accepted l)) :
    Visits subjects x [l] := by
  intro env
  obtain ⟨hcode, hstage, haccepted⟩ := hx env
  refine ⟨?_, hstage, fun hfaultless => ⟨haccepted hfaultless, trivial⟩⟩
  rw [hcode, Stage.marks, hmarks]
  rfl

end Visits

namespace Separated

variable {α β : Type} {subjects : List (List Access)} {f : α → Lowering β} {g : α → List Landmark}

theorem lower_visits (h : ∀ a, Visits subjects (f a) (g a)) (items : Separated α) :
    Visits subjects (items.lower f) (items.toList.flatMap g) := by
  have hothers : ∀ others : List (Token × α),
      Visits subjects (lower.lowerOthers f others) ((others.map (·.2)).flatMap g) := by
    intro others
    induction others with
    | nil => exact .pure _
    | cons item others ih =>
      exact .silently (fun _ => .consume _) fun _ => (h item.2).bind fun _ =>
        ih.andThen fun _ _ => .pure _
  exact (h items.first).bind fun _ => (hothers items.others).andThen fun _ _ => .pure _

theorem lower?_visits (h : ∀ a, Visits subjects (f a) (g a)) (items : Option (Separated α)) :
    Visits subjects (lower? items f) ((toList? items).flatMap g) := by
  cases items with
  | none => exact .pure _
  | some items => exact lower_visits h items

end Separated

/-! ## Declarations -/

/-- The bounds that an index of a declaration gives. -/
def Index.bounds (i : Index) : List Nat :=
  match i.number.value? with
  | some numeral => [(Text.word? numeral).getD 0]
  | none => []

def Declarator.landmarks (ty : DeclaredTy) (d : Declarator) : List Landmark :=
  match d.name.value? with
  | some name => [.declare ⟨name, ty, d.bounds.flatMap Index.bounds⟩]
  | none => []

def ConstEntry.landmarks (entry : ConstEntry) : List Landmark :=
  match entry.name.value?, entry.value with
  | some name, some (_, value) =>
      .constant name entry.ty.ty :: (value.references ++ [Reference.store name]).map .refer
  | _, _ => []

/-- The member that an item of a definition adds. -/
def StructItem.added? : StructItem → Option Component
  | .skipped _ => none
  | .member spec name bounds _ =>
      name.value?.map fun name => ⟨name, spec.declared, bounds.flatMap Index.bounds⟩

def Declaration.landmarks : Declaration → List Landmark
  | const _ entries _ => entries.toList.flatMap ConstEntry.landmarks
  | vars spec declarators _ => declarators.toList.flatMap (Declarator.landmarks spec.declared)
  | structDef _ name _ items _ _ => [.define ⟨name.valueD, items.filterMap StructItem.added?⟩]

theorem ScalarSpec.lower_value (spec : ScalarSpec) (env : Env) :
    (spec.lower env).value = spec.ty := by
  cases spec <;> rfl

theorem Visits.ofSpec {α : Type} {subjects : List (List Access)} {spec : ScalarSpec}
    {f : Ty → Lowering α} {inside : List Landmark} (hf : Visits subjects (f spec.ty) inside) :
    Visits subjects (spec.lower >>= f) inside := by
  intro env
  have hspec : (spec.lower env).Visits (env.stage subjects) [] :=
    Visits.still (fun st => spec.lower_still st) env
  exact hspec.bind (spec.lower_value env ▸ hf _)

theorem TypeSpec.lower_value (spec : TypeSpec) (env : Env) :
    (spec.lower env).value = spec.declared := by
  cases spec with
  | scalar s => cases s <;> rfl
  | struct keyword name => rfl

theorem lowerBounds_value (indices : List Index) (env : Env) :
    (lowerBounds indices env).value = indices.flatMap Index.bounds := by
  induction indices generalizing env with
  | nil => rfl
  | cons i indices ih =>
    obtain ⟨opening, number, closing⟩ := i
    rw [List.flatMap_cons]
    cases number with
    | missing kind next => simp [lowerBounds, ih, Index.bounds, Terminal.value?, Terminal.token?]
    | read token =>
      cases hword : Text.word? token.value <;>
        simp [lowerBounds, hword, ih, Index.bounds, Terminal.value?, Terminal.token?]

theorem Event.isFault_of_isRefusal {event : Event} (h : event.isRefusal = true) :
    event.isFault = true := by
  cases event with
  | fault e => rfl
  | consumed => cases h
  | warning message position => cases h

theorem declareVariable_visits {subjects : List (List Access)} (c : Component) :
    Visits subjects (declareVariable c.name c.ty c.bounds) [.declare c] := by
  refine .single (fun _ => rfl) fun env => ?_
  obtain ⟨arrays, events, -, ⟨hover, refusal, hrefusal, heq⟩ | ⟨hfits, heq⟩⟩ :=
    declareVariable_apply c.name c.ty c.bounds env
  · rw [heq]
    refine ⟨rfl, (if_pos hover).symm, fun hfaultless => ?_⟩
    have hfault := Event.isFault_of_isRefusal hrefusal
    simp [hfault] at hfaultless
  · rw [heq]
    exact ⟨rfl, (if_neg hfits).symm, fun _ => hfits⟩

theorem Declarator.lower_visits {subjects : List (List Access)} (ty : DeclaredTy) (d : Declarator) :
    Visits subjects (d.lower ty) (d.landmarks ty) := by
  refine .silently (fun _ => .terminal _) fun _ env => ?_
  have hbounds : (lowerBounds d.bounds env).Visits (env.stage subjects) [] :=
    Visits.still (fun st => lowerBounds_still st d.bounds) env
  refine hbounds.bind ?_
  rw [lowerBounds_value]
  cases d.name.value? with
  | none => exact Visits.pure () _
  | some name => exact declareVariable_visits ⟨name, ty, d.bounds.flatMap Index.bounds⟩ _

/-- A constant is declared where its name stands, and its value is stored under this name. -/
theorem ConstEntry.lower_visits {subjects : List (List Access)} (entry : ConstEntry) :
    Visits subjects entry.lower entry.landmarks := by
  obtain ⟨spec, name, value⟩ := entry
  refine .ofSpec (.silently (fun _ => .terminal _) fun _ => ?_)
  dsimp only [ConstEntry.landmarks]
  cases name.value? with
  | none => exact .pure ()
  | some name =>
    cases value with
    | none => exact .pure ()
    | some initial =>
      obtain ⟨becomes, value⟩ := initial
      intro env
      let declared := (env.scopes.declareStorage name .const spec.ty).2
      have hdeclare : (withScopes (fun st => st.declareStorage name .const spec.ty) env).Visits
          (env.stage subjects) [.constant name spec.ty] :=
        ⟨rfl, rfl, fun _ => ⟨trivial, trivial⟩⟩
      -- The name denotes the constant as soon as it is declared, also inside of its own value.
      have hfound := ScopeStack.resolve_declareStorage env.scopes name .const spec.ty
      have hstore : StillAt declared (do
          becomes.lower
          let valueTy ← value.lower
          check (Typing.assignment spec.ty valueTy)
          store ⟨(env.scopes.declareStorage name .const spec.ty).1, false⟩)
          (value.references ++ [Reference.store name]) :=
        .silently (.terminal _) fun _ => (value.lower_still declared).bind fun _ =>
          .silently (.check _) fun _ => .store hfound
      refine hdeclare.bind ?_
      exact hstore.visits rfl

/-! ### Structs -/

/-- The phrase declares nothing, and it has added these members to the definition. -/
structure Outcome.Collects (o : Outcome StructDef) (env : Env) (d : StructDef)
    (components : List Component) : Prop where
  still : o.Still env []
  value : o.value = components.foldl (StructDef.extend env.structs) d
  accepted : Faultless o.events →
    o.value = { d with members := d.members ++ components.flatMap (Component.members env.structs) }

theorem Outcome.Collects.after {α : Type} {env : Env} {d : StructDef} {components : List Component}
    {x : Lowering α} {f : α → Lowering StructDef} (hx : (x env).Still env [])
    (hf : (f (x env).value (x env).env).Collects (x env).env d components) :
    ((x >>= f) env).Collects env d components where
  still := hx.bind hf.still
  value := hx.structs ▸ hf.value
  accepted := fun hfaultless => hx.structs ▸ hf.accepted (by
    rw [bind_apply, faultless_append] at hfaultless
    exact hfaultless.2)

/-- One member, and then the others. -/
theorem Outcome.Collects.cons {env : Env} {d : StructDef} (c : Component)
    {components : List Component} {f : StructDef → Lowering StructDef}
    (hf : ∀ d, (f d env).Collects env d components) :
    ((addMembers d c.name c.ty c.bounds >>= f) env).Collects env d (c :: components) := by
  rcases addMembers_apply d c.name c.ty c.bounds env with
    ⟨hover, refusal, hrefusal, heq⟩ | ⟨hfits, heq⟩
  · have hextend : d.extend env.structs c = d := if_pos hover
    obtain ⟨hstill, hvalue, -⟩ := hf d
    rw [bind_apply, heq]
    refine ⟨⟨hstill.scopes, hstill.structs, hstill.marks⟩, ?_, fun hfaultless => ?_⟩
    · rw [List.foldl_cons, hextend]
      exact hvalue
    have hfault := Event.isFault_of_isRefusal hrefusal
    simp [hfault] at hfaultless
  · have hextend : d.extend env.structs c =
        { d with members := d.members ++ c.members env.structs } := if_neg hfits
    obtain ⟨hstill, hvalue, haccepted⟩ := hf { d with members := d.members ++ c.members env.structs }
    rw [bind_apply, heq]
    refine ⟨⟨hstill.scopes, hstill.structs, hstill.marks⟩, ?_, fun hfaultless => ?_⟩
    · rw [List.foldl_cons, hextend]
      exact hvalue
    · rw [List.flatMap_cons, ← List.append_assoc]
      exact haccepted hfaultless

theorem lowerStructItems_collects (items : List StructItem) (d : StructDef) (env : Env) :
    (lowerStructItems d items env).Collects env d (items.filterMap StructItem.added?) := by
  induction items generalizing d env with
  | nil => exact ⟨⟨rfl, rfl, rfl⟩, rfl, fun _ => by simp [lowerStructItems]⟩
  | cons item items ih =>
    cases item with
    | skipped token => exact .after (StillAt.skip "Decl" token env rfl) (ih d _)
    | member spec name bounds semicolon =>
      refine .after (spec.lower_still _ env rfl) (.after (StillAt.terminal name _ rfl)
        (.after (lowerBounds_still _ bounds _ rfl) (.after (StillAt.terminal semicolon _ rfl) ?_)))
      rw [TypeSpec.lower_value, lowerBounds_value, List.filterMap_cons, StructItem.added?]
      cases name.value? with
      | none => exact .after (StillAt.pure d _ rfl) (ih d _)
      | some name => exact .cons ⟨name, spec.declared, bounds.flatMap Index.bounds⟩ fun d => ih d _

/-- The struct is defined by the members that were not left out, and nothing else changes. -/
structure Outcome.Defines (o : Outcome Unit) (env : Env) (layout : Layout) : Prop where
  marks : marks o.code = []
  scopes : o.env.scopes = env.scopes
  structs : o.env.structs = env.structs.define (layout.build env.structs)
  accepted : Faultless o.events → layout.build env.structs =
    ⟨layout.name, layout.components.flatMap (Component.members env.structs)⟩

theorem Outcome.Defines.after {α : Type} {env : Env} {layout : Layout} {x : Lowering α}
    {f : α → Lowering Unit} (hx : (x env).Still env [])
    (hf : (f (x env).value (x env).env).Defines (x env).env layout) :
    ((x >>= f) env).Defines env layout where
  marks := by rw [bind_apply, marks_append, hx.marks, hf.marks]; rfl
  scopes := hf.scopes.trans hx.scopes
  structs := hx.structs ▸ hf.structs
  accepted := fun hfaultless => hx.structs ▸ hf.accepted (by
    rw [bind_apply, faultless_append] at hfaultless
    exact hfaultless.2)

theorem Outcome.Defines.visits {o : Outcome Unit} {env : Env} {layout : Layout}
    (h : o.Defines env layout) (hnew : Faultless o.events → env.structs.isDefined layout.name = false)
    {subjects : List (List Access)} : o.Visits (env.stage subjects) [.define layout] where
  marks := h.marks
  stage := by
    simp only [Env.stage, h.scopes, h.structs]
    rfl
  accepted := fun hfaultless => ⟨⟨hnew hfaultless, h.accepted hfaultless⟩, trivial⟩

theorem Outcome.Collects.defines {env : Env} {layout : Layout} {x : Lowering StructDef}
    (hx : (x env).Collects env (.new layout.name) layout.components)
    (closing semicolon : Terminal) :
    ((do
      let d ← x
      closing.lower
      semicolon.lower
      modifyEnv fun env => { env with structs := env.structs.define d } : Lowering Unit)
        env).Defines env layout := by
  have hclosing := StillAt.terminal closing (x env).env rfl
  have hsemicolon := StillAt.terminal semicolon (closing.lower (x env).env).env rfl
  have hvalue : (x env).value = layout.build env.structs := hx.value
  refine ⟨?_, ?_, ?_, fun hfaultless => ?_⟩
  · simp [modifyEnv, hx.still.marks, hclosing.marks, hsemicolon.marks]
  · exact hsemicolon.scopes.trans (hclosing.scopes.trans hx.still.scopes)
  · rw [← hvalue, ← hx.still.structs, ← hclosing.structs, ← hsemicolon.structs]
    rfl
  · rw [bind_apply, faultless_append] at hfaultless
    rw [← hvalue]
    exact hx.accepted hfaultless.1

theorem lowerStructDef_visits {subjects : List (List Access)} (keyword : Token)
    (name opening : Terminal) (items : List StructItem) (closing semicolon : Terminal) :
    Visits subjects (lowerStructDef keyword name opening items closing semicolon)
      [.define ⟨name.valueD, items.filterMap StructItem.added?⟩] := by
  have hbody (env : Env) : ((do
      opening.lower
      let d ← lowerStructItems (.new name.valueD) items
      closing.lower
      semicolon.lower
      modifyEnv fun env => { env with structs := env.structs.define d } : Lowering Unit)
        env).Defines env ⟨name.valueD, items.filterMap StructItem.added?⟩ := by
    refine .after (StillAt.terminal opening env rfl) ?_
    have hitems := lowerStructItems_collects items (.new name.valueD) (opening.lower env).env
    exact @Outcome.Collects.defines _ ⟨name.valueD, _⟩ _ hitems closing semicolon
  refine .silently (fun _ => .consume _) fun _ => .silently (fun _ => .terminal _) fun _ =>
    .ofEnv fun env => ?_
  dsimp only
  split
  next hdefined =>
    refine (Outcome.Defines.after (StillAt.refuse _ env rfl) (hbody _)).visits fun hfaultless => ?_
    simp [refuse, Event.isFault] at hfaultless
  next hnew => exact (hbody env).visits fun _ => Bool.eq_false_iff.mpr hnew

theorem Declaration.lower_visits {subjects : List (List Access)} (d : Declaration) :
    Visits subjects d.lower d.landmarks := by
  cases d with
  | const keyword entries semicolon =>
    exact .silently (fun _ => .consume _) fun _ =>
      (Separated.lower_visits ConstEntry.lower_visits entries).discard.andThen fun _ _ => .terminal _
  | vars spec declarators semicolon =>
    intro env
    have hspec : (spec.lower env).Visits (env.stage subjects) [] :=
      Visits.still (fun st => spec.lower_still st) env
    refine hspec.bind ?_
    rw [TypeSpec.lower_value]
    exact ((Separated.lower_visits (Declarator.lower_visits spec.declared) declarators).discard
      |>.andThen fun _ _ => .terminal _) _
  | structDef keyword name opening items closing semicolon =>
    exact lowerStructDef_visits keyword name opening items closing semicolon

end SlotLang
