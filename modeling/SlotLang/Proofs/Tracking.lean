import Mathlib.Data.List.Forall2
import SlotLang.Proofs.RenamedTables

/-!
# Lowering renamed trees

If the names in a tree are renamed, then its code is the renamed code.  Faults come up at the same
places, and they are of the same class; only their wording may differ.

Lowering is compared phrase by phrase.  `Tracks` relates two phrases that do the same up to
renaming, and each construct has one lemma that says so of itself and of its renamed copy.
-/

namespace SlotLang

open Lowering Aggregate

/-- Events of the same kind at the same place. -/
inductive Event.Alike : Event → Event → Prop where
  | consumed : Alike .consumed .consumed
  | fault {e e' : PlacedFault} (hclass : e'.fault.category = e.fault.category)
      (hplace : e'.position = e.position) : Alike (.fault e) (.fault e')
  | warning (message message' : String) (p : Position) :
      Alike (.warning message p) (.warning message' p)

/-- Two checks that both pass, or both fail with faults of one class. -/
inductive SameVerdict {α : Type} : Except Fault α → Except Fault α → Prop where
  | ok (a b : α) : SameVerdict (.ok a) (.ok b)
  | error {fault fault' : Fault} (hclass : fault'.category = fault.category) :
      SameVerdict (.error fault) (.error fault')

theorem SameVerdict.refl {α : Type} (rule : Except Fault α) : SameVerdict rule rule := by
  cases rule with
  | ok a => exact .ok a a
  | error fault => exact .error rfl

theorem SameVerdict.ite {α : Type} {c : Prop} [Decidable c]
    {first first' second second' : Except Fault α} (hfirst : SameVerdict first first')
    (hsecond : SameVerdict second second') :
    SameVerdict (if c then first else second) (if c then first' else second') := by
  by_cases hc : c <;> simpa [hc]

variable (r : Renaming)

/-- The second environment is the first one renamed, and it stands at the same place. -/
structure Env.Renamed (env env' : Env) : Prop where
  scopes : env'.scopes = r.scopes env.scopes
  structs : env'.structs = r.structs env.structs
  arrays : env'.arrays = r.arrays env.arrays
  signatures : env'.signatures = r.signatures env.signatures
  nextLabel : env'.nextLabel = env.nextLabel
  start : env'.last.start = env.last.start

structure Outcome.Renamed {α : Type} (f : α → α) (o o' : Outcome α) : Prop where
  value : o'.value = f o.value
  code : o'.code = o.code.map r.instruction
  events : List.Forall₂ Event.Alike o.events o'.events
  env : o.env.Renamed r o'.env

/-- The second phrase does the same as the first one up to renaming; the function says what becomes
of its value. -/
def Tracks {α : Type} (f : α → α) (x x' : Lowering α) : Prop :=
  ∀ env env' : Env, env.Renamed r env' → (x env).Renamed r f (x' env')

namespace Tracks

variable {r} {α β : Type} {f : α → α} {g : β → β}

theorem pure (f : α → α) (a : α) : Tracks r f (Pure.pure a) (Pure.pure (f a)) :=
  fun _ _ henv => ⟨rfl, rfl, .nil, henv⟩

theorem done (a : α) : Tracks r id (Pure.pure a) (Pure.pure a) := .pure id a

theorem bind {x x' : Lowering α} {h h' : α → Lowering β} (hx : Tracks r f x x')
    (hh : ∀ a, Tracks r g (h a) (h' (f a))) : Tracks r g (x >>= h) (x' >>= h') := by
  intro env env' henv
  have hfirst := hx env env' henv
  have hsecond := hh (x env).value _ _ hfirst.env
  rw [← hfirst.value] at hsecond
  refine ⟨hsecond.value, ?_, List.rel_append hfirst.events hsecond.events, hsecond.env⟩
  rw [bind_apply, bind_apply, List.map_append, hfirst.code, hsecond.code]

theorem discard {x x' : Lowering α} (hx : Tracks r f x x') :
    Tracks r id (Functor.discard x) (Functor.discard x') :=
  hx.bind fun _ => .done _

theorem env_bind {h h' : Env → Lowering β}
    (hh : ∀ env env', env.Renamed r env' → Tracks r g (h env) (h' env')) :
    Tracks r g (Lowering.env >>= h) (Lowering.env >>= h') :=
  fun env env' henv => hh env env' henv env env' henv

theorem modifyEnv {change change' : Env → Env}
    (h : ∀ env env', env.Renamed r env' → (change env).Renamed r (change' env')) :
    Tracks r id (Lowering.modifyEnv change) (Lowering.modifyEnv change') :=
  fun env env' henv => ⟨rfl, rfl, .nil, h env env' henv⟩

theorem withScopes {change change' : ScopeStack → α × ScopeStack}
    (h : ∀ st, change' (r.scopes st) = (f (change st).1, r.scopes (change st).2)) :
    Tracks r f (Lowering.withScopes change) (Lowering.withScopes change') := by
  intro env env' henv
  have hchange := h env.scopes
  rw [← henv.scopes] at hchange
  refine ⟨congrArg Prod.fst hchange, rfl, .nil, ?_⟩
  exact { henv with scopes := congrArg Prod.snd hchange }

theorem freshLabel : Tracks r r.label Lowering.freshLabel Lowering.freshLabel := by
  intro env env' henv
  refine ⟨?_, rfl, .nil, { henv with nextLabel := ?_ }⟩
  · exact congrArg Label.fresh henv.nextLabel
  · exact congrArg (· + 1) henv.nextLabel

theorem emitAll (code : List Instruction) :
    Tracks r id (Lowering.emitAll code) (Lowering.emitAll (code.map r.instruction)) :=
  fun _ _ henv => ⟨rfl, rfl, .nil, henv⟩

theorem emit (op : Op) : Tracks r id (Lowering.emit op) (Lowering.emit (r.op op)) := .emitAll _

theorem land (label : Label) :
    Tracks r id (Lowering.land label) (Lowering.land (r.label label)) := .emitAll _

theorem captured {x x' : Lowering α} (hx : Tracks r f x x') :
    Tracks r (fun found => (f found.1, found.2.map r.instruction)) (Lowering.captured x)
      (Lowering.captured x') := by
  intro env env' henv
  have h := hx env env' henv
  exact ⟨Prod.ext h.value h.code, rfl, h.events, h.env⟩

theorem consume {token token' : Token} (h : token'.start = token.start) :
    Tracks r id (Lowering.consume token) (Lowering.consume token') :=
  fun _ _ henv => ⟨rfl, rfl, .cons .consumed .nil, { henv with start := h }⟩

theorem token (t : Token) :
    Tracks r id (Lowering.consume t) (Lowering.consume (r.tokenMap.token t)) :=
  .consume (r.start_token t)

theorem refuseBefore {next next' : Token} {fault fault' : Fault} (hnext : next'.start = next.start)
    (hclass : fault'.category = fault.category) :
    Tracks r id (Lowering.refuseBefore next fault) (Lowering.refuseBefore next' fault') :=
  fun _ _ henv => ⟨rfl, rfl, .cons (.fault hclass hnext) .nil, henv⟩

theorem gap (next : Token) (fault : Fault) : Tracks r id (Lowering.refuseBefore next fault)
    (Lowering.refuseBefore (r.tokenMap.token next) fault) :=
  .refuseBefore (r.start_token next) rfl

theorem refuse {fault fault' : Fault} (hclass : fault'.category = fault.category) :
    Tracks r id (Lowering.refuse fault) (Lowering.refuse fault') :=
  fun _ _ henv => ⟨rfl, rfl, .cons (.fault hclass henv.start) .nil, henv⟩

theorem warn (message message' : String) :
    Tracks r id (Lowering.warn message) (Lowering.warn message') := by
  intro env env' henv
  refine ⟨rfl, rfl, .cons ?_ .nil, henv⟩
  rw [henv.start]
  exact .warning message message' _

theorem skip (production : String) (t : Token) :
    Tracks r id (Lowering.skip production t) (Lowering.skip production (r.tokenMap.token t)) :=
  .bind (.gap t _) fun _ => .token t

theorem verdict {rule rule' : Except Fault α} (h : SameVerdict rule rule') :
    Tracks r id (Lowering.check rule) (Lowering.check rule') := by
  cases h with
  | ok a b => exact .done ()
  | error hclass => exact .refuse hclass

theorem check (rule : Except Fault α) : Tracks r id (Lowering.check rule) (Lowering.check rule) :=
  .verdict (.refl rule)

theorem terminal (t : Terminal) : Tracks r id t.lower (t.map r.tokenMap).lower := by
  cases t with
  | read token => exact .token token
  | missing kind next => exact .gap next _

theorem textTerminal (t : Terminal) : Tracks r id t.lower (t.mapText r.tokenMap).lower := by
  cases t with
  | read token => exact .consume (r.start_text token)
  | missing kind next => exact .gap next _

theorem resolve (name : String) : Tracks r (Option.map r.resolved) (Lowering.resolve name)
    (Lowering.resolve (r.text name)) := by
  refine .env_bind fun env env' henv => ?_
  have hfound : env'.scopes.resolve (r.text name) = (env.scopes.resolve name).map r.resolved := by
    rw [henv.scopes, r.resolve_scopes]
  dsimp only
  rw [hfound, Option.isNone_map]
  split
  · exact .bind (.refuse rfl) fun _ => .pure _ _
  · exact .pure _ _

theorem load (target : Resolved) :
    Tracks r id (Lowering.load target) (Lowering.load (r.resolved target)) := by
  refine .env_bind fun env env' henv => ?_
  rw [henv.scopes, r.loadOp_resolved, Renaming.resolved, r.dataLevel_scopes]
  exact .emit _

theorem store (target : Resolved) :
    Tracks r id (Lowering.store target) (Lowering.store (r.resolved target)) := by
  refine .env_bind fun env env' henv => ?_
  rw [henv.scopes, r.storeOp_resolved, Renaming.resolved, r.dataLevel_scopes]
  exact .emit _

end Tracks

/-! ## Designators and expressions -/

theorem Index.lower_tracks (i : Index) : Tracks r id i.lower (i.map r.tokenMap).lower :=
  .bind (.token _) fun _ => .bind (.textTerminal _) fun _ => .terminal _

theorem lowerIndices_tracks (indices : List Index) :
    Tracks r id (lowerIndices indices) (lowerIndices (indices.map (Index.map r.tokenMap))) := by
  induction indices with
  | nil => exact .done ()
  | cons i indices ih => exact .bind (i.lower_tracks r) fun _ => ih

theorem lowerMemberRefs_tracks (members : List MemberRef) : Tracks r id (lowerMemberRefs members)
    (lowerMemberRefs (members.map (MemberRef.map r.tokenMap))) := by
  induction members with
  | nil => exact .done ()
  | cons m members ih =>
    exact .bind (.token _) fun _ => .bind (.textTerminal _) fun _ =>
      .bind (lowerIndices_tracks r _) fun _ => ih

theorem Designator.lower_tracks (d : Designator) :
    Tracks r (Option.map r.text) d.lower (d.map r.tokenMap).lower := by
  refine .bind (.textTerminal _) fun _ => .bind (lowerIndices_tracks r _) fun _ =>
    .bind (lowerMemberRefs_tracks r _) fun _ => ?_
  rw [r.name?_map]
  exact .pure _ _

theorem Designator.lowerTarget_tracks (d : Designator) :
    Tracks r (Option.map r.resolved) d.lowerTarget (d.map r.tokenMap).lowerTarget := by
  refine .bind (d.lower_tracks r) fun name => ?_
  cases name with
  | none => exact .pure _ none
  | some name => exact .resolve name

namespace Expr

theorem lowerNumber_tracks (token : Token) :
    Tracks r id (lowerNumber token) (lowerNumber (r.tokenMap.text token)) := by
  refine .bind (.consume (r.start_text token)) fun _ => ?_
  rw [r.value_text, r.integer?_text]
  cases Text.integer? token.value with
  | none => exact .bind (.refuse rfl) fun _ => .bind (.emit _) fun _ => .done _
  | some value => exact .bind (.emit _) fun _ => .done _

theorem lowerBoolean_tracks (token : Token) :
    Tracks r id (lowerBoolean token) (lowerBoolean (r.tokenMap.token token)) := by
  refine .bind (.token token) fun _ => ?_
  rw [r.tokenMap.kind_token]
  exact .bind (.emit _) fun _ => .done _

theorem lowerDesignator_tracks (d : Designator) :
    Tracks r id (lowerDesignator d) (lowerDesignator (d.map r.tokenMap)) := by
  refine .bind (d.lowerTarget_tracks r) fun found => ?_
  cases found with
  | none => exact .done _
  | some target =>
    have hrule : Typing.loadable (r.resolved target) = Typing.loadable target := rfl
    simp only [Option.map_some, hrule]
    cases Typing.loadable target with
    | ok ty => exact .bind (.load target) fun _ => .done _
    | error fault => exact .bind (.refuse rfl) fun _ => .done _

theorem lowerRelational_tracks {right right' : Lowering Ty} (h : Tracks r id right right')
    (left : Ty) (op : Token) : Tracks r id (lowerRelational left op right)
      (lowerRelational left (r.tokenMap.token op) right') := by
  refine .bind (.token op) fun _ => .bind h fun rightTy => ?_
  rw [r.tokenMap.kind_token, id_eq]
  cases Typing.relational left rightTy with
  | ok ty => exact .bind (.emit _) fun _ => .done _
  | error fault => exact .bind (.refuse rfl) fun _ => .done _

theorem lowerArithmetic_tracks {right right' : Lowering Ty} (h : Tracks r id right right')
    (left : Ty) (op : Token) : Tracks r id (lowerArithmetic left op right)
      (lowerArithmetic left (r.tokenMap.token op) right') := by
  refine .bind (.token op) fun _ => .bind h fun rightTy => .bind (.check _) fun _ => ?_
  rw [r.tokenMap.kind_token]
  exact .bind (.emit _) fun _ => .done _

theorem lower_tracks (e : Expr) : Tracks r id e.lower (e.map r.tokenMap).lower := by
  induction e with
  | missing next => exact .bind (.gap next _) fun _ => .done _
  | number token => exact lowerNumber_tracks r token
  | boolean token => exact lowerBoolean_tracks r token
  | designator d => exact lowerDesignator_tracks r d
  | negation minus operand ih =>
    exact .bind (.token _) fun _ => .bind ih fun _ => .bind (.check _) fun _ =>
      .bind (.emit _) fun _ => .bind (.emit _) fun _ => .bind (.emit _) fun _ => .done _
  | grouping opening inside closing ih =>
    exact .bind (.token _) fun _ => .bind ih fun _ => .bind (.terminal _) fun _ => .done _
  | relational left op right ihLeft ihRight =>
    exact .bind ihLeft fun ty => lowerRelational_tracks r ihRight ty op
  | arithmetic left op right ihLeft ihRight =>
    exact .bind ihLeft fun ty => lowerArithmetic_tracks r ihRight ty op

end Expr

namespace Separated

variable {r} {α β : Type} {f : α → α} {x x' : α → Lowering β}

theorem lower_tracks (h : ∀ a, Tracks r id (x a) (x' (f a))) (items : Separated α) :
    Tracks r id (items.lower x) ((items.map r.tokenMap f).lower x') := by
  have hothers : ∀ others : List (Token × α), Tracks r id (lower.lowerOthers x others)
      (lower.lowerOthers x' (others.map fun other => (r.tokenMap.token other.1, f other.2))) := by
    intro others
    induction others with
    | nil => exact .done _
    | cons item others ih =>
      exact .bind (.token _) fun _ => .bind (h _) fun _ => .bind ih fun _ => .done _
  exact .bind (h _) fun _ => .bind (hothers _) fun _ => .done _

theorem lower?_tracks (h : ∀ a, Tracks r id (x a) (x' (f a))) (items : Option (Separated α)) :
    Tracks r id (lower? items x) (lower? (items.map (Separated.map r.tokenMap f)) x') := by
  cases items with
  | none => exact .done _
  | some items => exact lower_tracks h items

end Separated

/-! ## Declarations -/

theorem ScalarSpec.lower_tracks (s : ScalarSpec) :
    Tracks r id s.lower (s.map r.tokenMap).lower := by
  cases s with
  | read token =>
    refine .bind (.token token) fun _ => ?_
    simp only [ScalarSpec.map, ScalarSpec.ty, r.tokenMap.kind_token]
    exact .done _
  | missing next => exact .bind (.gap next _) fun _ => .done _

theorem TypeSpec.lower_tracks (spec : TypeSpec) :
    Tracks r r.declaredTy spec.lower (spec.map r.tokenMap).lower := by
  cases spec with
  | scalar s => exact .bind (s.lower_tracks r) fun ty => .pure r.declaredTy (.scalar ty)
  | struct keyword name =>
    refine .bind (.token _) fun _ => .bind (.textTerminal _) fun _ => ?_
    rw [r.valueD_mapText]
    exact .pure r.declaredTy (.struct name.valueD)

theorem lowerBounds_tracks (indices : List Index) :
    Tracks r id (lowerBounds indices) (lowerBounds (indices.map (Index.map r.tokenMap))) := by
  induction indices with
  | nil => exact .done _
  | cons i indices ih =>
    obtain ⟨opening, number, closing⟩ := i
    refine .bind (.token _) fun _ => .bind (.textTerminal _) fun _ => ?_
    have hrest : ∀ bound : List Nat, Tracks r id
        (do closing.lower; let bounds ← lowerBounds indices; return bound ++ bounds)
        (do
          (closing.map r.tokenMap).lower
          let bounds ← lowerBounds (indices.map (Index.map r.tokenMap))
          return bound ++ bounds) :=
      fun bound => .bind (.terminal _) fun _ => .bind ih fun _ => .done _
    cases number with
    | missing kind next => exact .bind (.done _) fun bound => hrest bound
    | read token =>
      simp only [Terminal.mapText, Index.map, r.value_text, r.word?_text]
      cases Text.word? token.value with
      | none => exact .bind (.refuse rfl) fun _ => .bind (.done _) fun bound => hrest bound
      | some n => exact .bind (.done _) fun bound => hrest bound

theorem registerArray_tracks (key : ArrayKey) :
    Tracks r id (registerArray key) (registerArray (r.arrayKey key)) := by
  have hinsert : Tracks r id
      (modifyEnv fun env => { env with arrays := env.arrays.insert key })
      (modifyEnv fun env => { env with arrays := env.arrays.insert (r.arrayKey key) }) := by
    refine .modifyEnv fun env env' henv => { henv with arrays := ?_ }
    rw [henv.arrays, r.insert_arrays]
  refine .env_bind fun env env' henv => ?_
  rw [henv.arrays, r.contains_arrays]
  split
  · exact .bind (.refuse rfl) fun _ => hinsert
  · exact hinsert

theorem variableElements_tracks (name : String) (ty : DeclaredTy) (bounds : List Nat) :
    Tracks r (Option.map (List.map r.text)) (variableElements name ty bounds)
      (variableElements (r.text name) (r.declaredTy ty) bounds) := by
  have hty : (r.declaredTy ty).elementTy = ty.elementTy := by cases ty <;> rfl
  unfold variableElements
  rw [hty, r.flatten_text]
  split
  · exact .pure _ (some [name])
  · refine .bind (registerArray_tracks r ⟨name, ty.elementTy, bounds.length⟩) fun _ => ?_
    cases flatten name bounds 1 with
    | none => exact .bind (.refuse rfl) fun _ => .pure _ none
    | some names => exact .pure _ (some names)

theorem declareMembers_tracks (members : List Member) :
    Tracks r id (declareMembers members) (declareMembers (members.map r.member)) := by
  refine .modifyEnv fun env env' henv => { henv with scopes := ?_ }
  rw [henv.scopes, r.declareAll_scopes]

theorem declareVariable_tracks (name : String) (ty : DeclaredTy) (bounds : List Nat) :
    Tracks r id (declareVariable name ty bounds)
      (declareVariable (r.text name) (r.declaredTy ty) bounds) := by
  refine .bind (variableElements_tracks r name ty bounds) fun found => ?_
  cases found with
  | none => exact .done ()
  | some names =>
    cases ty with
    | scalar ty =>
      simp only [Option.map_some, Renaming.declaredTy, r.scalars_text]
      exact declareMembers_tracks r _
    | struct structName =>
      refine .env_bind fun env env' henv => ?_
      rw [henv.structs, r.get?_structs]
      cases env.structs.get? structName with
      | none => exact .refuse rfl
      | some d =>
        simp only [Option.map_some, r.instances_structDef, r.width_structDef, List.length_map]
        split
        · exact .refuse rfl
        · exact declareMembers_tracks r _

theorem Declarator.lower_tracks (ty : DeclaredTy) (d : Declarator) :
    Tracks r id (d.lower ty) ((d.map r.tokenMap).lower (r.declaredTy ty)) := by
  refine .bind (.textTerminal _) fun _ => .bind (lowerBounds_tracks r _) fun bounds => ?_
  rw [Declarator.map, r.value?_mapText]
  cases d.name.value? with
  | none => exact .done ()
  | some name => exact declareVariable_tracks r name ty bounds

theorem ConstEntry.lower_tracks (entry : ConstEntry) :
    Tracks r id entry.lower (entry.map r.tokenMap).lower := by
  refine .bind (entry.ty.lower_tracks r) fun ty => .bind (.textTerminal _) fun _ => ?_
  rw [ConstEntry.map, r.value?_mapText]
  cases entry.name.value? with
  | none => exact .done ()
  | some name =>
    cases entry.value with
    | none => exact .done ()
    | some parts =>
      exact .bind (.withScopes (r.declareStorage_renamed name .const ty)) fun s =>
        .bind (.terminal _) fun _ => .bind (parts.2.lower_tracks r) fun _ =>
        .bind (.check _) fun _ => .store ⟨s, false⟩

theorem addMembers_tracks (d : StructDef) (name : String) (ty : DeclaredTy) (bounds : List Nat) :
    Tracks r r.structDef (addMembers d name ty bounds)
      (addMembers (r.structDef d) (r.text name) (r.declaredTy ty) bounds) := by
  have hadd : ∀ width (expand expand' : List String → List Member),
      (∀ paths, expand' (paths.map r.text) = (expand paths).map r.member) →
      Tracks r r.structDef (addMembers.add d name bounds width expand)
        (addMembers.add (r.structDef d) (r.text name) bounds width expand') := by
    intro width expand expand' hexpand
    have hpaths : (if bounds.isEmpty then some [r.text name]
        else flatten (r.text name) bounds width) =
        (if bounds.isEmpty then some [name] else flatten name bounds width).map
          (List.map r.text) := by
      rw [r.flatten_text]
      split <;> rfl
    unfold addMembers.add
    rw [hpaths]
    cases if bounds.isEmpty then some [name] else flatten name bounds width with
    | none => exact .bind (.refuse rfl) fun _ => .pure _ d
    | some paths =>
      simp only [Option.map_some, Renaming.structDef, List.length_map, hexpand]
      split
      · exact .bind (.refuse rfl) fun _ => .pure r.structDef d
      · rw [← List.map_append]
        exact .pure r.structDef { d with members := d.members ++ expand paths }
  cases ty with
  | scalar ty => exact hadd _ _ _ fun paths => r.scalars_text paths ty
  | struct structName =>
    refine .env_bind fun env env' henv => ?_
    rw [henv.structs, r.get?_structs]
    cases env.structs.get? structName with
    | none => exact .bind (.refuse rfl) fun _ => .pure _ d
    | some inside =>
      simp only [Option.map_some, r.width_structDef]
      exact hadd _ _ _ (r.instances_structDef inside)

theorem lowerStructItems_tracks (items : List StructItem) (d : StructDef) :
    Tracks r r.structDef (lowerStructItems d items)
      (lowerStructItems (r.structDef d) (items.map (StructItem.map r.tokenMap))) := by
  induction items generalizing d with
  | nil => exact .pure _ d
  | cons item items ih =>
    cases item with
    | skipped token => exact .bind (.skip _ token) fun _ => ih d
    | member spec name bounds semicolon =>
      refine .bind (spec.lower_tracks r) fun ty => .bind (.textTerminal _) fun _ =>
        .bind (lowerBounds_tracks r _) fun bounds => .bind (.terminal _) fun _ => ?_
      rw [r.value?_mapText]
      cases name.value? with
      | none => exact .bind (.pure _ d) fun d => ih d
      | some name => exact .bind (addMembers_tracks r d name ty bounds) fun d => ih d

theorem lowerStructDef_tracks (keyword : Token) (name opening : Terminal)
    (items : List StructItem) (closing semicolon : Terminal) :
    Tracks r id (lowerStructDef keyword name opening items closing semicolon)
      (lowerStructDef (r.tokenMap.token keyword) (name.mapText r.tokenMap) (opening.map r.tokenMap)
        (items.map (StructItem.map r.tokenMap)) (closing.map r.tokenMap)
        (semicolon.map r.tokenMap)) := by
  have hdefine : ∀ d, Tracks r id
      (modifyEnv fun env => { env with structs := env.structs.define d })
      (modifyEnv fun env => { env with structs := env.structs.define (r.structDef d) }) := by
    intro d
    refine .modifyEnv fun env env' henv => { henv with structs := ?_ }
    rw [henv.structs, r.define_structs]
  have hitems := lowerStructItems_tracks r items (.new name.valueD)
  refine .bind (.token _) fun _ => .bind (.textTerminal _) fun _ =>
    .env_bind fun env env' henv => ?_
  rw [r.valueD_mapText, henv.structs, r.isDefined_structs]
  split
  · exact .bind (.refuse rfl) fun _ => .bind (.terminal _) fun _ => .bind hitems fun d =>
      .bind (.terminal _) fun _ => .bind (.terminal _) fun _ => hdefine d
  · exact .bind (.terminal _) fun _ => .bind hitems fun d =>
      .bind (.terminal _) fun _ => .bind (.terminal _) fun _ => hdefine d

theorem Declaration.lower_tracks (d : Declaration) :
    Tracks r id d.lower (d.map r.tokenMap).lower := by
  cases d with
  | const keyword entries semicolon =>
    exact .bind (.token _) fun _ =>
      .bind (.discard (Separated.lower_tracks (ConstEntry.lower_tracks r) entries)) fun _ =>
        .terminal _
  | vars spec declarators semicolon =>
    exact .bind (spec.lower_tracks r) fun ty =>
      .bind (.discard (Separated.lower_tracks (Declarator.lower_tracks r ty) declarators))
        fun _ => .terminal _
  | structDef keyword name opening items closing semicolon =>
    exact lowerStructDef_tracks r keyword name opening items closing semicolon

/-! ## Statements -/

theorem sameVerdict_readable (target : Resolved) :
    SameVerdict (Typing.readable target) (Typing.readable (r.resolved target)) :=
  .ite (.error rfl) (.ite (.ok () ()) (.error rfl))

theorem sameVerdict_argumentTypes (name : String) (index : Nat) (params args : List Ty) :
    SameVerdict (Typing.argumentTypes name index params args)
      (Typing.argumentTypes (r.text name) index params args) := by
  induction params generalizing index args with
  | nil => exact .refl (.ok ())
  | cons param params ih =>
    cases args with
    | nil => exact .refl (.ok ())
    | cons arg args => exact .ite (ih (index + 1) args) (.error rfl)

theorem sameVerdict_arguments (signature : Signature) (args : List Ty) :
    SameVerdict (Typing.arguments signature args)
      (Typing.arguments (r.signature signature) args) :=
  .ite (sameVerdict_argumentTypes r _ _ _ _) (.error rfl)

theorem checkAssignable_tracks (target : Option Resolved) :
    Tracks r id (checkAssignable target) (checkAssignable (target.map r.resolved)) := by
  cases target with
  | none => exact .done ()
  | some target => exact .check (Typing.assignable target)

theorem storeChecked_tracks (target : Option Resolved) (ty : Ty) :
    Tracks r id (storeChecked target ty) (storeChecked (target.map r.resolved) ty) := by
  cases target with
  | none => exact .done ()
  | some target =>
    exact .bind (.check (Typing.assignment target.symbol.ty ty)) fun _ => .store target

theorem lowerAssign_tracks (d : Designator) (becomes : Token) (value : Expr)
    (semicolon : Terminal) : Tracks r id (lowerAssign d becomes value semicolon)
      (lowerAssign (d.map r.tokenMap) (r.tokenMap.token becomes) (value.map r.tokenMap)
        (semicolon.map r.tokenMap)) :=
  .bind (d.lowerTarget_tracks r) fun target => .bind (.token _) fun _ =>
    .bind (checkAssignable_tracks r target) fun _ => .bind (value.lower_tracks r) fun ty =>
    .bind (.terminal _) fun _ => storeChecked_tracks r target ty

theorem lowerChoose_tracks (d : Designator) (becomes : Token) (guard : Expr) (question : Token)
    (first : Expr) (colon : Terminal) (second : Expr) (semicolon : Terminal) :
    Tracks r id (lowerChoose d becomes guard question first colon second semicolon)
      (lowerChoose (d.map r.tokenMap) (r.tokenMap.token becomes) (guard.map r.tokenMap)
        (r.tokenMap.token question) (first.map r.tokenMap) (colon.map r.tokenMap)
        (second.map r.tokenMap) (semicolon.map r.tokenMap)) :=
  .bind (d.lowerTarget_tracks r) fun target => .bind (.token _) fun _ =>
    .bind (checkAssignable_tracks r target) fun _ => .bind (guard.lower_tracks r) fun _ =>
    .bind (.token _) fun _ => .bind (.check _) fun _ => .bind .freshLabel fun elseLabel =>
    .bind (.emit (.jumpUnless elseLabel)) fun _ => .bind .freshLabel fun endLabel =>
    .bind (first.lower_tracks r) fun firstTy => .bind (.terminal _) fun _ =>
    .bind (storeChecked_tracks r target firstTy) fun _ => .bind (.emit (.jump endLabel)) fun _ =>
    .bind (.land elseLabel) fun _ => .bind (second.lower_tracks r) fun secondTy =>
    .bind (.terminal _) fun _ => .bind (storeChecked_tracks r target secondTy) fun _ =>
    .land endLabel

theorem emitCall_tracks (target : Resolved) (arguments : List Ty) :
    Tracks r id (emitCall target arguments) (emitCall (r.resolved target) arguments) := by
  -- Rules about kinds and types do not look at names.
  have hrule : Typing.callable (r.resolved target) = Typing.callable target := rfl
  unfold emitCall
  rw [hrule]
  cases Typing.callable target with
  | error fault => exact .refuse rfl
  | ok _ =>
    refine .env_bind fun here here' hhere => ?_
    -- Signatures are kept by label, and no two labels are renamed to one.
    have hlevel := r.callLevel_scopes here.scopes target.symbol
    simp only [hhere.scopes, hhere.signatures, r.callLabel_scopes, r.get?_signatures]
    have hcall : Tracks r id
        (emit (.call (here.scopes.callLevel target.symbol) (.named (callLabel here.scopes target))))
        (emit (.call ((r.scopes here.scopes).callLevel (r.resolved target).symbol)
          (.named (r.text (callLabel here.scopes target))))) := by
      rw [Renaming.resolved, hlevel]
      exact .emit _
    cases here.signatures.get? (callLabel here.scopes target) with
    | none => exact hcall
    | some signature =>
      exact .bind (.verdict (sameVerdict_arguments r signature arguments)) fun _ => hcall

theorem lowerCall_tracks (callee : Designator) (opening : Token)
    (arguments : Option (Separated Expr)) (closing semicolon : Terminal) :
    Tracks r id (lowerCall callee opening arguments closing semicolon)
      (lowerCall (callee.map r.tokenMap) (r.tokenMap.token opening)
        (arguments.map (Separated.map r.tokenMap (Expr.map r.tokenMap))) (closing.map r.tokenMap)
        (semicolon.map r.tokenMap)) := by
  refine .bind (callee.lowerTarget_tracks r) fun target => .bind (.token _) fun _ =>
    .bind (Separated.lower?_tracks (Expr.lower_tracks r) arguments) fun types =>
    .bind (.terminal _) fun _ => .bind (.terminal _) fun _ => ?_
  cases target with
  | none => exact .done ()
  | some target => exact emitCall_tracks r target types

theorem lowerRead_tracks (keyword : Token) (d : Designator) (semicolon : Terminal) :
    Tracks r id (lowerRead keyword d semicolon)
      (lowerRead (r.tokenMap.token keyword) (d.map r.tokenMap) (semicolon.map r.tokenMap)) := by
  refine .bind (.token _) fun _ => .bind (d.lowerTarget_tracks r) fun target =>
    .bind (.terminal _) fun _ => ?_
  cases target with
  | none => exact .done ()
  | some target =>
    exact .bind (.verdict (sameVerdict_readable r target)) fun _ =>
      .bind (.emit .read) fun _ => .store target

theorem lowerWrite_tracks (keyword : Token) (operands : Separated Expr) (semicolon : Terminal) :
    Tracks r id (lowerWrite keyword operands semicolon)
      (lowerWrite (r.tokenMap.token keyword) (operands.map r.tokenMap (Expr.map r.tokenMap))
        (semicolon.map r.tokenMap)) := by
  have hoperand : ∀ operand, Tracks r id (lowerWriteOperand operand)
      (lowerWriteOperand (operand.map r.tokenMap)) := fun operand =>
    .bind (operand.lower_tracks r) fun _ => .bind (.check _) fun _ => .emit .write
  exact .bind (.token _) fun _ =>
    .bind (.discard (Separated.lower_tracks hoperand operands)) fun _ => .terminal _

theorem Assignment.lower_tracks (a : Assignment) :
    Tracks r id a.lower (a.map r.tokenMap).lower := by
  cases a with
  | complete d becomes value =>
    exact .bind (d.lowerTarget_tracks r) fun target => .bind (.token _) fun _ =>
      .bind (checkAssignable_tracks r target) fun _ => .bind (value.lower_tracks r) fun ty =>
      storeChecked_tracks r target ty
  | broken d next => exact .bind (.discard (d.lowerTarget_tracks r)) fun _ => .gap next _

theorem Condition.lower_tracks (c : Condition) : Tracks r id c.lower (c.map r.tokenMap).lower :=
  .bind (.terminal _) fun _ => .bind (c.test.lower_tracks r) fun _ =>
    .bind (.terminal _) fun _ => .check _

section Compound

variable {r} {body body' alternative alternative' : Lowering Unit}

theorem lowerBranch_tracks (hbody : Tracks r id body body')
    (halternative : Tracks r id alternative alternative') (keyword : Token)
    (condition : Condition) : Tracks r id (lowerBranch keyword condition body alternative)
      (lowerBranch (r.tokenMap.token keyword) (condition.map r.tokenMap) body' alternative') :=
  .bind (.token _) fun _ => .bind (condition.lower_tracks r) fun _ =>
    .bind .freshLabel fun elseLabel => .bind (.emit (.jumpUnless elseLabel)) fun _ =>
    .bind hbody fun _ => .bind .freshLabel fun endLabel => .bind (.emit (.jump endLabel)) fun _ =>
    .bind (.land elseLabel) fun _ => .bind halternative fun _ => .land endLabel

theorem lowerWhile_tracks (hbody : Tracks r id body body') (keyword : Token)
    (condition : Condition) : Tracks r id (lowerWhile keyword condition body)
      (lowerWhile (r.tokenMap.token keyword) (condition.map r.tokenMap) body') :=
  .bind (.token _) fun _ => .bind .freshLabel fun startLabel => .bind .freshLabel fun endLabel =>
    .bind (.land startLabel) fun _ => .bind (condition.lower_tracks r) fun _ =>
    .bind (.emit (.jumpUnless endLabel)) fun _ => .bind hbody fun _ =>
    .bind (.emit (.jump startLabel)) fun _ => .land endLabel

theorem lowerFor_tracks (hbody : Tracks r id body body') (keyword : Token) (opening : Terminal)
    (init : Assignment) (afterInit : Terminal) (test : Expr) (afterTest : Terminal)
    (step : Assignment) (closing : Terminal) : Tracks r id
      (lowerFor keyword opening init afterInit test afterTest step closing body)
      (lowerFor (r.tokenMap.token keyword) (opening.map r.tokenMap) (init.map r.tokenMap)
        (afterInit.map r.tokenMap) (test.map r.tokenMap) (afterTest.map r.tokenMap)
        (step.map r.tokenMap) (closing.map r.tokenMap) body') :=
  .bind (.token _) fun _ => .bind (.terminal _) fun _ => .bind (init.lower_tracks r) fun _ =>
    .bind (.terminal _) fun _ => .bind .freshLabel fun backLabel =>
    .bind (.emit (.jump backLabel)) fun _ => .bind .freshLabel fun startLabel =>
    .bind .freshLabel fun endLabel => .bind (.land startLabel) fun _ =>
    .bind (test.lower_tracks r) fun _ => .bind (.terminal _) fun _ =>
    .bind (step.lower_tracks r) fun _ => .bind (.terminal _) fun _ => .bind (.check _) fun _ =>
    .bind (.emit (.jumpUnless endLabel)) fun _ => .bind hbody fun _ =>
    .bind (.land backLabel) fun _ => .bind (.emit (.jump startLabel)) fun _ => .land endLabel

theorem lowerCase_tracks (hbody : Tracks r id body body') (subjectTy : Ty)
    (subject : List Instruction) (endLabel : Label) (keyword : Token) (label : Expr)
    (colon : Terminal) : Tracks r id
      (lowerCase subjectTy subject endLabel keyword label colon body)
      (lowerCase subjectTy (subject.map r.instruction) (r.label endLabel)
        (r.tokenMap.token keyword) (label.map r.tokenMap) (colon.map r.tokenMap) body') :=
  .bind (.token _) fun _ => .bind (.emitAll subject) fun _ =>
    .bind (label.lower_tracks r) fun _ => .bind (.terminal _) fun _ => .bind (.check _) fun _ =>
    .bind .freshLabel fun nextLabel => .bind (.emit (.compare .equ)) fun _ =>
    .bind (.emit (.jumpUnless nextLabel)) fun _ => .bind hbody fun _ =>
    .bind (.emit (.jump endLabel)) fun _ => .land nextLabel

theorem lowerFallback_tracks (fallback : Option (Token × Terminal)) :
    Tracks r id (lowerFallback fallback) (lowerFallback
      (fallback.map fun parts => (r.tokenMap.token parts.1, parts.2.map r.tokenMap))) := by
  cases fallback with
  | none => exact .done ()
  | some parts => exact .bind (.token _) fun _ => .terminal _

theorem lowerSwitch_tracks {cases cases' : Ty → List Instruction → Label → Lowering Unit}
    (hcases : ∀ ty code label, Tracks r id (cases ty code label)
      (cases' ty (code.map r.instruction) (r.label label)))
    (hbody : Tracks r id body body') (keyword : Token) (opening : Terminal) (subject : Expr)
    (closing brace : Terminal) (fallback : Option (Token × Terminal)) (closingBrace : Terminal) :
    Tracks r id
      (lowerSwitch keyword opening subject closing brace cases fallback body closingBrace)
      (lowerSwitch (r.tokenMap.token keyword) (opening.map r.tokenMap) (subject.map r.tokenMap)
        (closing.map r.tokenMap) (brace.map r.tokenMap) cases'
        (fallback.map fun parts => (r.tokenMap.token parts.1, parts.2.map r.tokenMap)) body'
        (closingBrace.map r.tokenMap)) :=
  .bind (.token _) fun _ => .bind (.terminal _) fun _ =>
    .bind (.captured (subject.lower_tracks r)) fun found => .bind (.terminal _) fun _ =>
    .bind (.terminal _) fun _ => .bind .freshLabel fun endLabel =>
    .bind (hcases found.1 found.2 endLabel) fun _ => .bind (lowerFallback_tracks fallback) fun _ =>
    .bind hbody fun _ => .bind (.terminal _) fun _ => .land endLabel

end Compound

mutual

theorem Stmt.lower_tracks : ∀ s : Stmt, Tracks r id s.lower (s.map r.tokenMap).lower
  | .missing next => .gap next _
  | .broken target => .discard (target.lower_tracks r)
  | .dangling target next => .bind (.discard (target.lowerTarget_tracks r)) fun _ => .gap next _
  | .assign target becomes value semicolon => lowerAssign_tracks r target becomes value semicolon
  | .choose target becomes guard question first colon second semicolon =>
      lowerChoose_tracks r target becomes guard question first colon second semicolon
  | .call callee opening arguments closing semicolon =>
      lowerCall_tracks r callee opening arguments closing semicolon
  | .branch keyword condition body =>
      lowerBranch_tracks body.lower_tracks (.done ()) keyword condition
  | .branchElse keyword condition body otherwise alternative =>
      lowerBranch_tracks body.lower_tracks
        (.bind (.token otherwise) fun _ => alternative.lower_tracks) keyword condition
  | .whileLoop keyword condition body => lowerWhile_tracks body.lower_tracks keyword condition
  | .forLoop keyword opening init afterInit test afterTest step closing body =>
      lowerFor_tracks body.lower_tracks keyword opening init afterInit test afterTest step closing
  | .switch keyword opening subject closing brace cases fallback fallbackBody closingBrace =>
      lowerSwitch_tracks (lowerCases_tracks cases) (lowerStmts_tracks fallbackBody) keyword opening
        subject closing brace fallback closingBrace
  | .read keyword target semicolon => lowerRead_tracks r keyword target semicolon
  | .write keyword operands semicolon => lowerWrite_tracks r keyword operands semicolon
  | .block opening items closing => .bind (.token opening) fun _ =>
      .bind (lowerBlockItems_tracks items) fun _ => .terminal closing

theorem lowerStmts_tracks : ∀ stmts : List Stmt,
    Tracks r id (lowerStmts stmts) (lowerStmts (mapStmts r.tokenMap stmts))
  | [] => .done ()
  | s :: more => .bind s.lower_tracks fun _ => lowerStmts_tracks more

theorem lowerCases_tracks : ∀ (cases : List Case) (ty : Ty) (code : List Instruction)
    (endLabel : Label), Tracks r id (lowerCases ty code endLabel cases)
      (lowerCases ty (code.map r.instruction) (r.label endLabel) (mapCases r.tokenMap cases))
  | [], _, _, _ => .done ()
  | .mk keyword label colon body :: more, ty, code, endLabel =>
      .bind (lowerCase_tracks (lowerStmts_tracks body) ty code endLabel keyword label colon)
        fun _ => lowerCases_tracks more ty code endLabel

theorem lowerBlockItems_tracks : ∀ items : List BlockItem,
    Tracks r id (lowerBlockItems items) (lowerBlockItems (mapBlock r.tokenMap items))
  | [] => .done ()
  | item :: more => .bind item.lower_tracks fun _ => lowerBlockItems_tracks more

theorem BlockItem.lower_tracks : ∀ item : BlockItem,
    Tracks r id item.lower (item.map r.tokenMap).lower
  | .declaration d => d.lower_tracks r
  | .statement s => s.lower_tracks
  | .skipped token => .skip _ token

end

/-! ## Procedures and programs -/

theorem Param.lower_tracks (p : Param) : Tracks r id p.lower (p.map r.tokenMap).lower := by
  refine .bind (p.ty.lower_tracks r) fun ty => .bind (.textTerminal _) fun _ => ?_
  rw [Param.map, r.value?_mapText]
  cases p.name.value? with
  | none => exact .done _
  | some name =>
    exact .bind (.discard (.withScopes (r.declareLocal_renamed name .var ty))) fun _ => .done _

theorem registerSignature_tracks (label : String) (signature : Signature) :
    Tracks r id (registerSignature label signature)
      (registerSignature (r.text label) (r.signature signature)) := by
  refine .modifyEnv fun env env' henv => { henv with signatures := ?_ }
  rw [henv.signatures, r.register_signatures]

theorem openProcedure_tracks (keyword : Token) (name : Terminal) :
    Tracks r r.text (openProcedure keyword name)
      (openProcedure (r.tokenMap.token keyword) (name.mapText r.tokenMap)) := by
  unfold openProcedure
  rw [r.valueD_mapText]
  exact .bind (.token _) fun _ => .bind (.textTerminal _) fun _ =>
    .bind (.discard (.withScopes (r.declareProcedure_renamed _))) fun _ =>
    .withScopes fun st => r.enterProcedure_scopes st _

theorem emitArguments_tracks (count : Nat) :
    Tracks r id (emitAll (storeArguments count)) (emitAll (storeArguments count)) := by
  have hstores : (storeArguments count).map r.instruction = storeArguments count :=
    List.map_map
  have h := Tracks.emitAll (r := r) (storeArguments count)
  rwa [hstores] at h

theorem closeProcedure_tracks : Tracks r id closeProcedure closeProcedure := by
  refine .bind (.withScopes r.exitProcedure_scopes) fun scope => ?_
  rw [r.slotCount_scope]
  exact .done _

section Bodies

variable {r} {body body' : Lowering Unit}

theorem lowerProcedureBody_tracks (hbody : Tracks r id body body') (label : String)
    (name opening : Terminal) (params : Option (Separated Param)) (closing brace : Terminal)
    (closingBrace : Terminal) : Tracks r id
      (lowerProcedureBody label name opening params closing brace body closingBrace)
      (lowerProcedureBody (r.text label) (name.mapText r.tokenMap) (opening.map r.tokenMap)
        (params.map (Separated.map r.tokenMap (Param.map r.tokenMap))) (closing.map r.tokenMap)
        (brace.map r.tokenMap) body' (closingBrace.map r.tokenMap)) := by
  unfold lowerProcedureBody
  rw [r.valueD_mapText]
  exact .bind (.terminal _) fun _ =>
    .bind (Separated.lower?_tracks (Param.lower_tracks r) params) fun types =>
    .bind (.terminal _) fun _ =>
    .bind (registerSignature_tracks r label ⟨name.valueD, types, .undefined⟩) fun _ =>
    .bind (emitArguments_tracks r types.length) fun _ => .bind (.terminal _) fun _ =>
    .bind hbody fun _ => .terminal _

theorem lowerProcedure_tracks (hbody : Tracks r id body body') (keyword : Token)
    (name opening : Terminal) (params : Option (Separated Param)) (closing brace : Terminal)
    (closingBrace : Terminal) : Tracks r id
      (lowerProcedure keyword name opening params closing brace body closingBrace)
      (lowerProcedure (r.tokenMap.token keyword) (name.mapText r.tokenMap) (opening.map r.tokenMap)
        (params.map (Separated.map r.tokenMap (Param.map r.tokenMap))) (closing.map r.tokenMap)
        (brace.map r.tokenMap) body' (closingBrace.map r.tokenMap)) :=
  .bind (openProcedure_tracks r keyword name) fun label =>
    .bind (.captured (lowerProcedureBody_tracks hbody label name opening params closing brace
      closingBrace)) fun found =>
    .bind (closeProcedure_tracks r) fun frame =>
    .bind (.emitAll [.labelled (.named label) (.enter frame)]) fun _ =>
    .bind (.emitAll found.2) fun _ => .bind (.emit .leave) fun _ => .emit .ret

theorem lowerNested_tracks (hbody : Tracks r id body body') :
    Tracks r id (lowerNested body) (lowerNested body') :=
  .bind .freshLabel fun skipLabel => .bind (.emit (.jump skipLabel)) fun _ =>
    .bind hbody fun _ => .land skipLabel

end Bodies

mutual

theorem Procedure.lower_tracks : ∀ p : Procedure, Tracks r id p.lower (p.map r.tokenMap).lower
  | .mk keyword name opening params closing brace body closingBrace =>
      lowerProcedure_tracks (lowerBodyItems_tracks body) keyword name opening params closing brace
        closingBrace

theorem lowerBodyItems_tracks : ∀ items : List BodyItem,
    Tracks r id (lowerBodyItems items) (lowerBodyItems (mapBody r.tokenMap items))
  | [] => .done ()
  | item :: more => .bind item.lower_tracks fun _ => lowerBodyItems_tracks more

theorem BodyItem.lower_tracks : ∀ item : BodyItem,
    Tracks r id item.lower (item.map r.tokenMap).lower
  | .declaration d => d.lower_tracks r
  | .statement s => s.lower_tracks r
  | .nested p => lowerNested_tracks p.lower_tracks
  | .skipped token => .skip _ token

end

theorem declareExternal_tracks (name : Terminal) (kind : SymbolKind) (ty : Ty) :
    Tracks r id (declareExternal name kind ty)
      (declareExternal (name.mapText r.tokenMap) kind ty) := by
  unfold declareExternal
  rw [r.value?_mapText]
  cases name.value? with
  | none => exact .done ()
  | some name => exact .discard (.withScopes (r.declareExternal_renamed name kind ty))

theorem lowerExternalParams_tracks (name : Terminal) (params : Option ExternalParams) :
    Tracks r id (lowerExternalParams name params) (lowerExternalParams (name.mapText r.tokenMap)
      (params.map (ExternalParams.map r.tokenMap))) := by
  cases params with
  | none => exact .done ()
  | some params =>
    refine .bind (.token _) fun _ =>
      .bind (Separated.lower?_tracks (ScalarSpec.lower_tracks r) params.types) fun types =>
      .bind (.terminal _) fun _ => ?_
    rw [r.valueD_mapText]
    exact registerSignature_tracks r name.valueD ⟨name.valueD, types, .undefined⟩

theorem External.lower_tracks (e : External) : Tracks r id e.lower (e.map r.tokenMap).lower := by
  cases e with
  | vars keyword spec names semicolon =>
    refine .bind (.token _) fun _ => .bind (spec.lower_tracks r) fun ty =>
      .bind (.discard (Separated.lower_tracks ?_ names)) fun _ => .terminal _
    exact fun name => .bind (.textTerminal name) fun _ => declareExternal_tracks r name .var ty
  | const keyword constant spec name semicolon =>
    exact .bind (.token _) fun _ => .bind (.token _) fun _ => .bind (spec.lower_tracks r) fun ty =>
      .bind (.textTerminal _) fun _ => .bind (declareExternal_tracks r name .const ty) fun _ =>
      .terminal _
  | procedure keyword mark name params semicolon =>
    exact .bind (.token _) fun _ => .bind (.token _) fun _ => .bind (.textTerminal _) fun _ =>
      .bind (declareExternal_tracks r name .procedure .undefined) fun _ =>
      .bind (lowerExternalParams_tracks r name params) fun _ => .terminal _
  | missing keyword next => exact .bind (.token _) fun _ => .gap next _

theorem ProgramItem.lower_tracks (item : ProgramItem) :
    Tracks r id item.lower (item.map r.tokenMap).lower := by
  cases item with
  | declaration d => exact d.lower_tracks r
  | procedure p => exact p.lower_tracks r
  | external e => exact e.lower_tracks r
  | skipped token => exact .skip _ token

theorem lowerProgramItems_tracks (items : List ProgramItem) : Tracks r id (lowerProgramItems items)
    (lowerProgramItems (items.map (ProgramItem.map r.tokenMap))) := by
  induction items with
  | nil => exact .done ()
  | cons item items ih => exact .bind (item.lower_tracks r) fun _ => ih

theorem Program.lower_tracks (p : Program) : Tracks r id p.lower (p.map r.tokenMap).lower := by
  have hopen : Tracks r id
      (modifyEnv fun env => { env with scopes := env.scopes.openScope })
      (modifyEnv fun env => { env with scopes := env.scopes.openScope }) := by
    refine .modifyEnv fun env env' henv => { henv with scopes := ?_ }
    rw [henv.scopes]
    rfl
  refine .bind (.terminal _) fun _ => .bind (.textTerminal _) fun _ => .bind (.terminal _) fun _ =>
    .bind hopen fun _ => .bind (lowerProgramItems_tracks r p.items) fun _ =>
    .bind (.terminal _) fun _ => .env_bind fun env env' henv => ?_
  rw [henv.scopes, r.declaresNothing_scopes]
  split
  · exact .bind (.warn _ _) fun _ => .terminal _
  · exact .terminal _

end SlotLang
