import SlotLang.Proofs.Residues

/-!
# Lowering beside a residue

Every phrase that does not mention the name in a residue does beside the residue what it does without
it, up to the numbers of labels, unless it registers an array or a struct that the residue has too.
There is one lemma for each construct, about the construct and its copy without places.
-/

namespace SlotLang

open Lowering Aggregate

variable {ρ : Residue}

/-! ## Designators -/

theorem Index.text_unplaced (i : Index) : (i.map unplaced).text = i.text := by
  simp [Index.text, Index.map]

namespace Designator

theorem indicesText_unplaced (indices : List Index) :
    indicesText (indices.map (Index.map unplaced)) = indicesText indices := by
  simp [indicesText, Function.comp_def, Index.text_unplaced]

theorem membersText?_unplaced (members : List MemberRef) :
    membersText? (members.map (MemberRef.map unplaced)) = membersText? members := by
  induction members with
  | nil => rfl
  | cons m members ih => simp [membersText?, MemberRef.map, indicesText_unplaced, ih]

theorem name?_unplaced (d : Designator) : (d.map unplaced).name? = d.name? := by
  simp [name?, Designator.map, indicesText_unplaced, membersText?_unplaced]

/-- The text is empty, or it starts as an index or a member does. -/
def IsSuffix (text : String) : Prop := ∀ c ∈ text.toList.head?, c = '[' ∨ c = '.'

theorem IsSuffix.append {s t : String} (hs : IsSuffix s) (ht : IsSuffix t) : IsSuffix (s ++ t) := by
  intro c hc
  rw [String.toList_append, List.head?_append] at hc
  cases hfirst : s.toList.head? with
  | none => exact ht c (by simpa [hfirst] using hc)
  | some d => exact hs c (by simpa [hfirst] using hc)

theorem isSuffix_indicesText (indices : List Index) : IsSuffix (indicesText indices) := by
  have hindex : ∀ i : Index, IsSuffix i.text := by
    intro i
    unfold Index.text
    split
    · split <;> simp [IsSuffix]
    · simp [IsSuffix]
  induction indices with
  | nil => simp [IsSuffix, indicesText]
  | cons i indices ih =>
    have hjoin : indicesText (i :: indices) = i.text ++ indicesText indices := by
      simp [indicesText]
    rw [hjoin]
    exact (hindex i).append ih

theorem isSuffix_membersText {members : List MemberRef} {text : String}
    (h : membersText? members = some text) : IsSuffix text := by
  cases members with
  | nil =>
    obtain rfl := Option.some.inj h
    simp [IsSuffix]
  | cons m members =>
    simp only [membersText?, Option.bind_eq_bind, Option.bind_eq_some_iff] at h
    obtain ⟨name, -, rest, -, htext⟩ := h
    obtain rfl := Option.some.inj htext
    simp [IsSuffix]

theorem hides_name {d : Designator} {name : String}
    (h : ρ.Clears (d.map unplaced).outline) (hname : d.name? = some name) :
    ρ.hides name = false := by
  simp only [name?, Option.bind_eq_bind, Option.bind_eq_some_iff] at hname
  obtain ⟨head, hhead, members, hmembers, htext⟩ := hname
  obtain rfl := Option.some.inj htext
  have hvisible : ρ.hides head = false := by
    cases hd : d.head with
    | missing kind next => simp [hd, Terminal.value?, Terminal.token?] at hhead
    | read token =>
      have hvalue : token.value = head := by
        simpa [hd, Terminal.value?, Terminal.token?] using hhead
      rw [← hvalue]
      simp only [outline, Designator.map, hd, Terminal.mapText, Terminal.outline,
        Residue.clears_append, Residue.clears_token] at h
      exact h.1
  rw [String.append_assoc]
  exact ρ.hides_append hvisible ((isSuffix_indicesText _).append (isSuffix_membersText hmembers))

end Designator

theorem Index.lower_echoes (i : Index) : Echoes ρ [] id i.lower (i.map unplaced).lower :=
  .bind (.consume _ _) fun _ => .bind (.terminal _) fun _ => .terminal _

theorem lowerIndices_echoes (indices : List Index) :
    Echoes ρ [] id (lowerIndices indices) (lowerIndices (indices.map (Index.map unplaced))) := by
  induction indices with
  | nil => exact .done ()
  | cons i indices ih => exact .bind i.lower_echoes fun _ => ih

theorem lowerMemberRefs_echoes (members : List MemberRef) : Echoes ρ [] id (lowerMemberRefs members)
    (lowerMemberRefs (members.map (MemberRef.map unplaced))) := by
  induction members with
  | nil => exact .done ()
  | cons m members ih =>
    exact .bind (.consume _ _) fun _ => .bind (.terminal _) fun _ =>
      .bind (lowerIndices_echoes _) fun _ => ih

/-- What a name was found to denote is no symbol of the residue. -/
def Residue.Visible (ρ : Residue) (found : Option Resolved) : Prop :=
  ∀ target ∈ found, ρ.hides target.symbol.name = false

theorem ScopeStack.name_of_resolve {st : ScopeStack} {name : String} {target : Resolved}
    (h : st.resolve name = some target) : target.symbol.name = name := by
  have hlookup : ∀ {scope : Scope} {s : Symbol}, scope.lookup name = some s → s.name = name :=
    fun hs => by simpa using List.find?_some hs
  unfold resolve at h
  split at h
  next s hs =>
    obtain rfl := Option.some.inj h
    obtain ⟨scope, -, hscope⟩ := List.exists_of_findSome?_eq_some hs
    exact hlookup hscope
  next =>
    obtain ⟨s, hs, rfl⟩ := Option.map_eq_some_iff.mp h
    exact hlookup hs

namespace Designator

variable {d : Designator}

theorem lower_echoes (d : Designator) : Echoes ρ [] id d.lower (d.map unplaced).lower := by
  refine .bind (.terminal _) fun _ => .bind (lowerIndices_echoes _) fun _ =>
    .bind (lowerMemberRefs_echoes _) fun _ => ?_
  rw [name?_unplaced]
  exact .done _

theorem lowerTarget_echoes (h : ρ.Clears (d.map unplaced).outline) :
    Echoes ρ [] id d.lowerTarget (d.map unplaced).lowerTarget := by
  refine .bind_of (p := fun found => ∀ name ∈ found, ρ.hides name = false) d.lower_echoes ?_ ?_
  · intro env
    refine (d.lower_ensures env).mono ?_
    rintro found code env' ⟨⟨text, hname, rfl⟩, -⟩ name hmem
    obtain rfl := Option.some.inj hmem
    exact hides_name h hname
  · intro found hvisible
    cases found with
    | none => exact .done none
    | some name => exact .resolve (hvisible name rfl)

theorem lowerTarget_visible (h : ρ.Clears (d.map unplaced).outline) (env : Env) :
    d.lowerTarget.Ensures env fun found _ _ => ρ.Visible found := by
  simp only [lowerTarget, ensures_bind]
  refine (d.lower_ensures env).mono ?_
  rintro found code env₁ ⟨⟨text, hname, rfl⟩, -⟩
  simp only [ensures_resolve]
  intro target htarget other hother
  obtain rfl := Option.some.inj hother
  rw [ScopeStack.name_of_resolve htarget]
  exact hides_name h hname

end Designator

/-! ## Expressions -/

namespace Expr

theorem lowerNumber_echoes (token : Token) :
    Echoes ρ [] id (lowerNumber token) (lowerNumber (unplaced.token token)) := by
  refine .bind (.consume _ _) fun _ => ?_
  rw [value_unplaced]
  cases Text.integer? token.value with
  | none => exact .refuse_bind _ _ _ _
  | some value => exact .bind (.emit _) fun _ => .done _

theorem lowerDesignator_echoes {d : Designator} (h : ρ.Clears (d.map unplaced).outline) :
    Echoes ρ [] id (lowerDesignator d) (lowerDesignator (d.map unplaced)) := by
  refine .bind (d.lowerTarget_echoes h) fun found => ?_
  cases found with
  | none => exact .done _
  | some target =>
    simp only [id_eq]
    cases Typing.loadable target with
    | ok ty => exact .bind (.load target) fun _ => .done _
    | error fault => exact .refuse_bind _ _ _ _

theorem lowerRelational_echoes {right right' : Lowering Ty} (h : Echoes ρ [] id right right')
    (left : Ty) (op : Token) : Echoes ρ [] id (lowerRelational left op right)
      (lowerRelational left (unplaced.token op) right') := by
  refine .bind (.consume _ _) fun _ => .bind h fun rightTy => ?_
  rw [kind_unplaced, id_eq]
  cases Typing.relational left rightTy with
  | ok ty => exact .bind (.emit _) fun _ => .done _
  | error fault => exact .refuse_bind _ _ _ _

theorem lowerArithmetic_echoes {right right' : Lowering Ty} (h : Echoes ρ [] id right right')
    (left : Ty) (op : Token) : Echoes ρ [] id (lowerArithmetic left op right)
      (lowerArithmetic left (unplaced.token op) right') := by
  refine .bind (.consume _ _) fun _ => .bind h fun rightTy => .bind (.check _) fun _ => ?_
  rw [kind_unplaced]
  exact .bind (.emit _) fun _ => .done _

theorem lower_echoes {e : Expr} (h : ρ.Clears (e.map unplaced).outline) :
    Echoes ρ [] id e.lower (e.map unplaced).lower := by
  induction e with
  | missing next => exact .bind (.refuseBefore _ _ _ _) fun _ => .done _
  | number token => exact lowerNumber_echoes token
  | boolean token =>
    exact .bind (.consume _ _) fun _ => .bind (.emit (.const _)) fun _ => .done _
  | designator d => exact lowerDesignator_echoes h
  | negation minus operand ih =>
    simp only [Expr.map, Expr.outline, Residue.clears_append] at h
    exact .bind (.consume _ _) fun _ => .bind (ih h.2) fun _ => .bind (.check _) fun _ =>
      .bind (.emit .neg) fun _ => .bind (.emit (.const 1)) fun _ =>
      .bind (.emit (.arith .add)) fun _ => .done _
  | grouping opening content closing ih =>
    simp only [Expr.map, Expr.outline, Residue.clears_append] at h
    exact .bind (.consume _ _) fun _ => .bind (ih h.2.1) fun _ => .bind (.terminal _) fun _ => .done _
  | relational left op right ihLeft ihRight =>
    simp only [Expr.map, Expr.outline, Residue.clears_append, Residue.clears_round] at h
    exact .bind (ihLeft h.1) fun ty => lowerRelational_echoes (ihRight h.2.1.2) ty op
  | arithmetic left op right ihLeft ihRight =>
    simp only [Expr.map, Expr.outline, Residue.clears_append, Residue.clears_round] at h
    exact .bind (ihLeft h.1) fun ty => lowerArithmetic_echoes (ihRight h.2.1.2) ty op

end Expr

namespace Separated

variable {α β : Type} {f : α → α} {x x' : α → Lowering β} {r : α → List Register}

@[simp] theorem toList_map (m : TokenMap) (f : α → α) (items : Separated α) :
    (items.map m f).toList = items.toList.map f := by
  simp [toList, Separated.map]

theorem clears_outline {item : α → Outline} {items : Separated α}
    (h : ρ.Clears (items.outline item)) : ∀ a ∈ items.toList, ρ.Clears (item a) := by
  simp only [outline, Residue.clears_append, Residue.clears_loop] at h
  intro a ha
  rcases List.mem_cons.mp ha with rfl | ha
  · exact h.1
  · obtain ⟨other, hother, rfl⟩ := List.mem_map.mp ha
    exact (h.2 other hother).2

/-- Items one after the other register what each of them registers. -/
theorem lower_echoes {items : Separated α}
    (h : ∀ a ∈ items.toList, Echoes ρ (r a) id (x a) (x' (f a))) :
    Echoes ρ (items.toList.flatMap r) id (items.lower x) ((items.map unplaced f).lower x') := by
  have hothers : ∀ others : List (Token × α),
      (∀ other ∈ others, Echoes ρ (r other.2) id (x other.2) (x' (f other.2))) →
      Echoes ρ ((others.map (·.2)).flatMap r) id (lower.lowerOthers x others)
        (lower.lowerOthers x' (others.map fun other => (unplaced.token other.1, f other.2))) := by
    intro others
    induction others with
    | nil => exact fun _ => .done _
    | cons item others ih =>
      intro hitems
      obtain ⟨hitem, hmore⟩ := List.forall_mem_cons.mp hitems
      exact .bind (.consume _ _) fun _ => .append hitem fun _ => .andThen (ih hmore) fun _ => .done _
  refine .append (h _ List.mem_cons_self) fun _ => .andThen (hothers _ ?_) fun _ => .done _
  intro other hother
  exact h _ (List.mem_cons_of_mem _ (List.mem_map_of_mem hother))

theorem lower_quiet {items : Separated α}
    (h : ∀ a ∈ items.toList, Echoes ρ [] id (x a) (x' (f a))) :
    Echoes ρ [] id (items.lower x) ((items.map unplaced f).lower x') := by
  have hall := lower_echoes (r := fun _ => []) h
  rwa [List.flatMap_eq_nil_iff.mpr fun _ _ => rfl] at hall

theorem lower?_quiet {items : Option (Separated α)}
    (h : ∀ a ∈ toList? items, Echoes ρ [] id (x a) (x' (f a))) :
    Echoes ρ [] id (lower? items x) (lower? (items.map (Separated.map unplaced f)) x') := by
  cases items with
  | none => exact .done _
  | some items => exact lower_quiet h

end Separated

/-! ## Declarations -/

theorem Echoes.missing_bind {β : Type} {g : β → β} {rs : List Register} (kind : TokenKind)
    (next next' : Token) (y y' : Unit → Lowering β) :
    Echoes ρ rs g ((Terminal.missing kind next).lower >>= y)
      ((Terminal.missing kind next').lower >>= y') :=
  .of_faulty (by simp [Terminal.lower, Lowering.refuseBefore, Event.isFault])
    (by simp [Terminal.lower, Lowering.refuseBefore, Event.isFault])

theorem ScalarSpec.ty_unplaced (s : ScalarSpec) : (s.map unplaced).ty = s.ty := by
  cases s <;> rfl

theorem TypeSpec.declared_unplaced (spec : TypeSpec) :
    (spec.map unplaced).declared = spec.declared := by
  cases spec with
  | scalar s => simp [TypeSpec.map, TypeSpec.declared, s.ty_unplaced]
  | struct keyword name => simp [TypeSpec.map, TypeSpec.declared]

theorem ScalarSpec.lower_echoes (s : ScalarSpec) :
    Echoes ρ [] id s.lower (s.map unplaced).lower := by
  cases s with
  | read token => exact .bind (.consume _ _) fun _ => .done _
  | missing next => exact .bind (.refuseBefore _ _ _ _) fun _ => .done _

theorem TypeSpec.lower_echoes (spec : TypeSpec) :
    Echoes ρ [] id spec.lower (spec.map unplaced).lower := by
  cases spec with
  | scalar s => exact .bind s.lower_echoes fun _ => .done _
  | struct keyword name =>
    refine .bind (.consume _ _) fun _ => .bind (.terminal _) fun _ => ?_
    rw [Terminal.mapText_unplaced, Terminal.valueD_unplaced]
    exact .done _

theorem lowerBounds_echoes (indices : List Index) :
    Echoes ρ [] id (lowerBounds indices) (lowerBounds (indices.map (Index.map unplaced))) := by
  induction indices with
  | nil => exact .done _
  | cons i indices ih =>
    obtain ⟨opening, number, closing⟩ := i
    refine .bind (.consume _ _) fun _ => .bind (.terminal _) fun _ => ?_
    have hrest : ∀ bound : List Nat, Echoes ρ [] id
        (do closing.lower; let bounds ← lowerBounds indices; return bound ++ bounds)
        (do
          (closing.map unplaced).lower
          let bounds ← lowerBounds (indices.map (Index.map unplaced))
          return bound ++ bounds) :=
      fun bound => .bind (.terminal _) fun _ => .bind ih fun _ => .done _
    cases number with
    | missing kind next => exact .bind (.done _) fun bound => hrest bound
    | read token =>
      simp only [Terminal.mapText, Index.map, text_unplaced, value_unplaced]
      cases Text.word? token.value with
      | none => exact .refuse_bind _ _ _ _
      | some n => exact .bind (.done _) fun bound => hrest bound

/-! ## Registrations -/

namespace Lowering

variable {α : Type} {taken : Env → Bool} {fault : Fault} {x x' : Lowering α} {add : α → Env → Env}

/-- Registers what a phrase gives.  It is a fault if that is taken before the phrase. -/
def registerOnce (taken : Env → Bool) (fault : Fault) (x : Lowering α) (add : α → Env → Env) :
    Lowering Unit := do
  if taken (← env) then refuse fault
  let a ← x
  modifyEnv (add a)

theorem registerOnce_free {env : Env} (h : taken env = false) :
    registerOnce taken fault x add env = (x >>= fun a => modifyEnv (add a)) env := by
  simp [registerOnce, bind_apply, Lowering.env, h]

theorem free_of_faultless {env : Env} (h : Faultless (registerOnce taken fault x add env).events) :
    taken env = false := by
  rw [← Bool.not_eq_true]
  intro htaken
  simp [registerOnce, bind_apply, Lowering.env, htaken, refuse, Event.isFault] at h

end Lowering

theorem Env.Carries.known {env env' : Env} (h : env.Carries ρ env') {r : Register}
    (hr : r ∉ ρ.registers) : r.Known env' ↔ r.Known env := by
  cases r with
  | array key => rw [Register.Known, Register.Known, h.arrays key hr]
  | struct name => rw [Register.Known, Register.Known, StructTable.isDefined,
      StructTable.isDefined, h.structs name hr]

/-- A registration is echoed if it adds the register on both sides. -/
theorem Echoes.registerOnce {α : Type} {r : Register} {taken : Env → Bool} {fault : Fault}
    {x x' : Lowering α} {add : α → Env → Env} {p : α → Prop}
    (htaken : ∀ env, taken env = true ↔ r.Known env) (hx : Echoes ρ [] id x x')
    (hp : ∀ env, x.Ensures env fun a _ _ => p a)
    (hadd : ∀ a, p a → ∀ env env', env.Carries ρ env' → r ∉ ρ.registers → ¬r.Known env →
      env.Adds [r] (add a env) ∧ (add a env).Carries ρ (add a env')) :
    Echoes ρ [r] id (Lowering.registerOnce taken fault x add)
      (Lowering.registerOnce taken fault x' add) := by
  intro env env' henv
  have hfree : r ∉ ρ.registers → (taken env' = false ↔ taken env = false) := by
    intro hr
    rw [← Bool.not_eq_true, ← Bool.not_eq_true, htaken, htaken, henv.known hr]
  constructor
  · intro hfaultless hdisjoint
    have hr : r ∉ ρ.registers := by simpa using hdisjoint
    have hfirst := free_of_faultless hfaultless
    rw [registerOnce_free hfirst, bind_apply, faultless_append] at hfaultless
    have hagrees := (hx env env' henv).agrees hfaultless.1 (by simp)
    have hunknown : ¬r.Known (x env).env := by
      rw [hagrees.adds.known, ← htaken]
      simp [hfirst]
    obtain ⟨hadds, hcarries⟩ := hadd _ (hp env hfaultless.1) _ _ hagrees.env hr hunknown
    rw [registerOnce_free hfirst, registerOnce_free ((hfree hr).mpr hfirst)]
    refine ⟨?_, hagrees.adds.trans hadds, rfl, ?_, ?_⟩
    · rw [bind_apply, faultless_append]
      exact ⟨hagrees.faultless, faultless_nil⟩
    · rw [bind_apply, bind_apply, List.map_append, hagrees.code]
      rfl
    · rw [bind_apply, bind_apply, hagrees.value]
      exact hcarries
  · intro hnone hfaultless
    have hsecond := free_of_faultless hfaultless
    have hfirst := (hfree (by simp [hnone])).mp hsecond
    rw [registerOnce_free hsecond, bind_apply, faultless_append] at hfaultless
    rw [registerOnce_free hfirst, bind_apply, faultless_append]
    exact ⟨(hx env env' henv).reflects hnone hfaultless.1, faultless_nil⟩

theorem ArrayRegister.contains_insert (register : ArrayRegister) (key other : ArrayKey) :
    (register.insert key).contains other = true ↔
      other = key ∨ register.contains other = true := by
  unfold ArrayRegister.insert
  split
  next hkey =>
    refine ⟨.inr, ?_⟩
    rintro (rfl | hother)
    · exact hkey
    · exact hother
  next => simp [ArrayRegister.contains, eq_comm (a := other)]

theorem Env.Adds.insertArray {env : Env} {key : ArrayKey} (h : ¬Register.Known env (.array key)) :
    env.Adds [.array key] { env with arrays := env.arrays.insert key } where
  known r := by
    cases r with
    | array other => simp [Register.Known, ArrayRegister.contains_insert, or_comm]
    | struct name => simp [Register.Known]
  fresh := by simpa using h
  kept _ _ hd := hd

theorem Env.Carries.insertArray {env env' : Env} (h : env.Carries ρ env') (key : ArrayKey) :
    Env.Carries ρ { env with arrays := env.arrays.insert key }
      { env' with arrays := env'.arrays.insert key } := by
  refine { h with arrays := fun other hother => ?_ }
  rw [Bool.eq_iff_iff, ArrayRegister.contains_insert, ArrayRegister.contains_insert,
    h.arrays other hother]

theorem registerArray_eq (key : ArrayKey) :
    registerArray key = registerOnce (fun env => env.arrays.contains key)
      (.arrayAlreadyDeclared key.name) (pure ())
      fun _ env => { env with arrays := env.arrays.insert key } := by
  funext env
  by_cases hkey : env.arrays.contains key = true <;>
    simp [registerArray, registerOnce, bind_apply, Lowering.env, hkey]

theorem registerArray_echoes (key : ArrayKey) :
    Echoes ρ [.array key] id (registerArray key) (registerArray key) := by
  rw [registerArray_eq]
  refine .registerOnce (p := fun _ => True) (fun env => Iff.rfl) (.done ()) (by simp) ?_
  exact fun _ _ env env' henv _ hunknown => ⟨.insertArray hunknown, henv.insertArray key⟩

/-- The registers of a variable with the given bounds. -/
def boundRegisters (name : String) (ty : DeclaredTy) (bounds : List Nat) : List Register :=
  if bounds.isEmpty then [] else [.array ⟨name, ty.elementTy, bounds.length⟩]

theorem variableElements_echoes (name : String) (ty : DeclaredTy) (bounds : List Nat) :
    Echoes ρ (boundRegisters name ty bounds) id (variableElements name ty bounds)
      (variableElements name ty bounds) := by
  unfold variableElements boundRegisters
  split
  · exact .done _
  · refine .andThen (registerArray_echoes _) fun _ => ?_
    cases flatten name bounds 1 with
    | none => exact .refuse_bind _ _ _ _
    | some names => exact .done _

theorem declareMembers_echoes (members : List Member) :
    Echoes ρ [] id (declareMembers members) (declareMembers members) := by
  refine .of_silent (fun _ => faultless_nil) fun env env' henv => ?_
  refine ⟨faultless_nil, .quiet rfl rfl, rfl, rfl, { henv with scopes := ?_ }⟩
  exact Residue.carries_declareAll henv.scopes members

/-- A struct that is found without the residue is found beside it. -/
theorem Env.Carries.get_struct {env env' : Env} (h : env.Carries ρ env') {name : String}
    {d : StructDef} (hd : env.structs.get? name = some d) : env'.structs.get? name = some d := by
  have hvisible : .struct name ∉ ρ.registers := by
    intro hmem
    rw [h.undefined name hmem] at hd
    contradiction
  rw [h.structs name hvisible, hd]

theorem declareVariable_echoes (name : String) (ty : DeclaredTy) (bounds : List Nat) :
    Echoes ρ (boundRegisters name ty bounds) id (declareVariable name ty bounds)
      (declareVariable name ty bounds) := by
  refine .andThen (variableElements_echoes name ty bounds) fun found => ?_
  cases found with
  | none => exact .done ()
  | some names =>
    cases ty with
    | scalar ty => exact declareMembers_echoes _
    | struct structName =>
      refine .env_bind fun env env' henv => ?_
      cases hd : env.structs.get? structName with
      | none =>
        refine .of_faulty (by simp [refuse, Event.isFault]) fun hnone => ?_
        rw [henv.structs structName (by simp [hnone]), hd]
        simp [refuse, Event.isFault]
      | some d =>
        rw [henv.get_struct hd]
        simp only
        split
        · exact .refuse _ _
        · exact declareMembers_echoes _

theorem Declarator.lower_echoes (ty : DeclaredTy) (d : Declarator) :
    Echoes ρ ((d.map unplaced).registers ty) id (d.lower ty) ((d.map unplaced).lower ty) := by
  obtain ⟨name, bounds⟩ := d
  cases name with
  | missing kind next => exact .missing_bind _ _ _ _ _
  | read token =>
    refine .bind (.terminal _) fun _ => .bind_of (p := fun found => found.length = bounds.length)
      (lowerBounds_echoes bounds) ?_ fun found hfound => ?_
    · intro env
      refine (lowerBounds_ensures bounds env).mono ?_
      rintro found code env' ⟨rfl, -⟩
      exact List.length_map _
    · have hregisters : (Declarator.map unplaced ⟨.read token, bounds⟩).registers ty =
          boundRegisters token.value ty found := by
        have hempty : bounds.isEmpty = found.isEmpty := by
          rw [Bool.eq_iff_iff, List.isEmpty_iff_length_eq_zero, List.isEmpty_iff_length_eq_zero,
            hfound]
        simp only [Declarator.registers, Declarator.map, boundRegisters, hfound, List.isEmpty_map,
          List.length_map, hempty]
        rfl
      rw [hregisters]
      exact declareVariable_echoes token.value ty found

theorem ConstEntry.lower_echoes {entry : ConstEntry}
    (h : ρ.Clears (entry.map unplaced).outline) :
    Echoes ρ [] id entry.lower (entry.map unplaced).lower := by
  obtain ⟨spec, name, value⟩ := entry
  refine .bind spec.lower_echoes fun ty => .bind (.terminal _) fun _ => ?_
  simp only [ConstEntry.map, Terminal.mapText_unplaced, Terminal.value?_unplaced]
  cases hname : name.value? with
  | none => exact .done ()
  | some text =>
    cases value with
    | none => exact .done ()
    | some parts =>
      simp only [ConstEntry.outline, ConstEntry.map, Terminal.mapText_unplaced,
        Terminal.value?_unplaced, hname, Option.map_some, Residue.clears_append] at h
      exact .bind (.withScopes (Residue.allows_declareStorage text .const ty)) fun s =>
        .bind (.terminal _) fun _ => .bind (Expr.lower_echoes h.2.2.2) fun _ =>
        .bind (.check _) fun _ => .store ⟨s, false⟩

theorem addMembers_echoes (d : StructDef) (name : String) (ty : DeclaredTy) (bounds : List Nat) :
    Echoes ρ [] id (addMembers d name ty bounds) (addMembers d name ty bounds) := by
  have hadd : ∀ width expand, Echoes ρ [] id (addMembers.add d name bounds width expand)
      (addMembers.add d name bounds width expand) := by
    intro width expand
    unfold addMembers.add
    split
    · exact .refuse_bind _ _ _ _
    · split
      · exact .refuse_bind _ _ _ _
      · exact .done _
  cases ty with
  | scalar ty => exact hadd _ _
  | struct structName =>
    refine .env_bind fun env env' henv => ?_
    cases hd : env.structs.get? structName with
    | none =>
      refine .of_faulty (by simp [refuse, Event.isFault]) fun hnone => ?_
      rw [henv.structs structName (by simp [hnone]), hd]
      simp [refuse, Event.isFault]
    | some inside =>
      rw [henv.get_struct hd]
      exact hadd _ _

theorem lowerStructItems_echoes (items : List StructItem) (d : StructDef) :
    Echoes ρ [] id (lowerStructItems d items)
      (lowerStructItems d (items.map (StructItem.map unplaced))) := by
  induction items generalizing d with
  | nil => exact .done d
  | cons item items ih =>
    cases item with
    | skipped token => exact .bind (.skip _ _ _) fun _ => ih d
    | member spec name bounds semicolon =>
      refine .bind spec.lower_echoes fun ty => .bind (.terminal _) fun _ =>
        .bind (lowerBounds_echoes _) fun bounds => .bind (.terminal _) fun _ => ?_
      simp only [Terminal.mapText_unplaced, Terminal.value?_unplaced]
      cases name.value? with
      | none => exact .bind (.done d) fun d => ih d
      | some name => exact .bind (addMembers_echoes d name ty bounds) fun d => ih d

theorem StructTable.get?_define {table : StructTable} {d : StructDef}
    (h : table.isDefined d.name = false) (name : String) :
    (table.define d).get? name = if name = d.name then some d else table.get? name := by
  rw [StructTable.define, if_neg (by simp [h]), StructTable.get?, List.find?_cons]
  by_cases hname : name = d.name
  · simp [hname]
  · simp [hname, Ne.symm hname, StructTable.get?]

theorem Env.Adds.define {env : Env} {d : StructDef} (h : env.structs.isDefined d.name = false) :
    env.Adds [.struct d.name] { env with structs := env.structs.define d } where
  known r := by
    cases r with
    | array key => simp [Register.Known]
    | struct other =>
      by_cases hother : other = d.name <;>
        simp [Register.Known, StructTable.isDefined, StructTable.get?_define h, hother]
  fresh := by simpa [Register.Known] using h
  kept other e he := by
    have hother : other ≠ d.name := by
      rintro rfl
      simp [StructTable.isDefined, he] at h
    rw [StructTable.get?_define h, if_neg hother, he]

theorem Env.Carries.define {env env' : Env} (h : env.Carries ρ env') {d : StructDef}
    (hfree : env.structs.isDefined d.name = false) (hname : .struct d.name ∉ ρ.registers) :
    Env.Carries ρ { env with structs := env.structs.define d }
      { env' with structs := env'.structs.define d } := by
  have hfree' : env'.structs.isDefined d.name = false := by
    rwa [StructTable.isDefined, h.structs _ hname]
  refine { h with structs := fun other hmem => ?_, undefined := fun other hmem => ?_ }
  · rw [StructTable.get?_define hfree, StructTable.get?_define hfree', h.structs other hmem]
  · have hother : other ≠ d.name := by
      rintro rfl
      exact hname hmem
    rw [StructTable.get?_define hfree, if_neg hother, h.undefined other hmem]

theorem lowerStructDef_eq (keyword : Token) (name opening : Terminal) (items : List StructItem)
    (closing semicolon : Terminal) :
    lowerStructDef keyword name opening items closing semicolon = (do
      consume keyword
      name.lower
      registerOnce (fun env => env.structs.isDefined name.valueD)
        (.structAlreadyDefined name.valueD)
        (do
          opening.lower
          let d ← lowerStructItems (.new name.valueD) items
          closing.lower
          semicolon.lower
          return d)
        fun d env => { env with structs := env.structs.define d }) := by
  funext env
  simp only [lowerStructDef, registerOnce, bind_apply]
  split <;> simp

theorem lowerStructDef_echoes (keyword : Token) (name opening : Terminal)
    (items : List StructItem) (closing semicolon : Terminal) :
    Echoes ρ [.struct name.valueD] id (lowerStructDef keyword name opening items closing semicolon)
      (lowerStructDef (unplaced.token keyword) (name.map unplaced) (opening.map unplaced)
        (items.map (StructItem.map unplaced)) (closing.map unplaced) (semicolon.map unplaced)) := by
  rw [lowerStructDef_eq, lowerStructDef_eq, Terminal.valueD_unplaced]
  refine .bind (.consume _ _) fun _ => .bind (.terminal _) fun _ =>
    .registerOnce (p := fun d => d.name = name.valueD) (fun env => Iff.rfl) ?_ ?_ ?_
  · exact .bind (.terminal _) fun _ => .bind (lowerStructItems_echoes items _) fun d =>
      .bind (.terminal _) fun _ => .bind (.terminal _) fun _ => .done d
  · intro env
    simp only [ensures_bind, ensures_terminal, ensures_pure]
    intro _ _
    refine (lowerStructItems_ensures items _ _).mono ?_
    rintro d code env₁ ⟨rfl, -⟩ _ _ _ _
    rfl
  · intro d hd env env' henv hname hunknown
    rw [← hd] at hname hunknown ⊢
    have hfree : env.structs.isDefined d.name = false := by simpa [Register.Known] using hunknown
    exact ⟨.define hfree, henv.define hfree hname⟩

theorem Declaration.lower_echoes {d : Declaration} (h : ρ.Clears (d.map unplaced).outline) :
    Echoes ρ (d.map unplaced).registers id d.lower (d.map unplaced).lower := by
  cases d with
  | const keyword entries semicolon =>
    simp only [Declaration.map, Declaration.outline, Residue.clears_append] at h
    refine .bind (.consume _ _) fun _ => .bind (.discard (Separated.lower_quiet ?_)) fun _ =>
      .terminal _
    intro entry hentry
    refine ConstEntry.lower_echoes (Separated.clears_outline h.2.1 _ ?_)
    simpa using List.mem_map_of_mem hentry
  | vars spec declarators semicolon =>
    refine .bind_of (p := fun ty => ty = spec.declared) spec.lower_echoes ?_ ?_
    · intro env
      refine (spec.lower_ensures env).mono ?_
      rintro ty code env' ⟨rfl, -⟩
      rfl
    · rintro ty rfl
      have hall : Echoes ρ
          (declarators.toList.flatMap fun d => (d.map unplaced).registers spec.declared) id
          (declarators.lower (Declarator.lower spec.declared))
          ((declarators.map unplaced (Declarator.map unplaced)).lower
            (Declarator.lower spec.declared)) :=
        Separated.lower_echoes fun d _ => Declarator.lower_echoes spec.declared d
      simp only [Declaration.registers, Declaration.map, TypeSpec.declared_unplaced,
        Separated.toList_map, List.flatMap_map]
      exact .andThen hall.discard fun _ => .terminal _
  | structDef keyword name opening items closing semicolon =>
    simp only [Declaration.registers, Declaration.map, Terminal.mapText_unplaced,
      Terminal.valueD_unplaced]
    exact lowerStructDef_echoes keyword name opening items closing semicolon

end SlotLang
