import SlotLang.Proofs.Machine
import SlotLang.Proofs.Resolution
import SlotLang.Proofs.StackTyping

/-!
# What a call goes to

The procedures of a listing follow each other in the order of their declarations, and a call names
the label of the declaration that its name denotes.  Whether this label leads to the right code is a
question about all other declarations: two of them have the same label only if some scope declares a
procedure name twice.

The arguments of a call are those that the declaration takes, with one exception: an external
procedure which is declared behind a procedure of the program and has its name brings in its own
signature, and from there on the calls of both are checked by it.
-/

namespace SlotLang

open Emitted

/-! ## The order of the procedures in a listing -/

section

variable {α β : Type} {f : α → Option β}

theorem exists_getElem?_of_filterMap {items : List α} {k : Nat} {b : β}
    (h : (items.filterMap f)[k]? = some b) :
    ∃ e x, items[e]? = some x ∧ f x = some b ∧ ((items.take e).filterMap f).length = k := by
  induction items generalizing k with
  | nil => simp at h
  | cons x items ih =>
    cases hx : f x with
    | none =>
      rw [List.filterMap_cons_none hx] at h
      obtain ⟨e, y, hy, hb, hk⟩ := ih h
      exact ⟨e + 1, y, hy, hb, by rw [List.take_succ_cons, List.filterMap_cons_none hx, hk]⟩
    | some c =>
      rw [List.filterMap_cons_some hx] at h
      cases k with
      | zero =>
        have hc : c = b := Option.some.inj h
        exact ⟨0, x, rfl, hc ▸ hx, rfl⟩
      | succ k =>
        obtain ⟨e, y, hy, hb, hk⟩ := ih h
        refine ⟨e + 1, y, hy, hb, ?_⟩
        rw [List.take_succ_cons, List.filterMap_cons_some hx, List.length_cons, hk]

theorem getElem?_filterMap_of {items : List α} {e : Nat} {x : α} {b : β}
    (hx : items[e]? = some x) (hb : f x = some b) :
    (items.filterMap f)[((items.take e).filterMap f).length]? = some b := by
  induction items generalizing e with
  | nil => simp at hx
  | cons y items ih =>
    cases e with
    | zero =>
      have hy : y = x := Option.some.inj hx
      rw [List.filterMap_cons_some (hy ▸ hb)]
      rfl
    | succ e =>
      have hrest := ih hx
      cases hy : f y with
      | none => simpa only [List.take_succ_cons, List.filterMap_cons_none hy] using hrest
      | some c =>
        simpa only [List.take_succ_cons, List.filterMap_cons_some hy, List.length_cons,
          List.getElem?_cons_succ] using hrest

theorem length_filterMap_take_lt {items : List α} {e e' : Nat} {x : α} {b : β}
    (hx : items[e]? = some x) (hb : f x = some b) (hlt : e < e') :
    ((items.take e).filterMap f).length < ((items.take e').filterMap f).length := by
  have hsplit : (items.take e').take (e + 1) = items.take e ++ [x] := by
    rw [List.take_take, Nat.min_eq_left hlt, List.take_add_one, hx]
    rfl
  have hfront : items.take e ++ [x] <+: items.take e' := by
    rw [← hsplit]
    exact List.take_prefix _ _
  have hle := (hfront.filterMap f).length_le
  rw [List.filterMap_append, List.filterMap_cons_some hb, List.length_append] at hle
  simp only [List.filterMap_nil, List.length_singleton] at hle
  omega

end

theorem filterMap_routine?_of_inner {code : List Emitted} (h : code.all Emitted.inner = true) :
    code.filterMap Emitted.routine? = [] := by
  apply List.filterMap_eq_nil_iff.mpr
  intro x hx
  have hinner := List.all_eq_true.mp h x hx
  exact (Emitted.inner_iff.mp hinner).1

theorem Routine.filterMap_around (r : Routine) (code : List Emitted) :
    (r.around code).filterMap Emitted.routine? = r :: code.filterMap Emitted.routine? := by
  have hprologue := filterMap_routine?_of_inner (prologue_inner r.params.length)
  have hentry : r.entry.routine? = some r := rfl
  have hend : [plain .leave, plain .ret].filterMap Emitted.routine? = [] := rfl
  rw [around, List.filterMap_cons_some hentry, List.filterMap_append, List.filterMap_append,
    hprologue, hend, List.nil_append, List.append_nil]

mutual

theorem Procedure.routines_code : ∀ (p : Procedure) (st : Static) (n : Nat),
    ((p.elaborate st).1.around ((p.elaborate st).1.body.code n)).filterMap Emitted.routine? =
      (p.definitions st).map (·.routine)
  | .mk _ name _ params _ _ body _, st, n => by
      have hbody := elaborateBody_routines body
        (st.enter name.valueD (Separated.toList? params)) n
      rw [Routine.filterMap_around]
      simp only [Procedure.elaborate, Procedure.definitions, List.map_cons, ← hbody]

theorem elaborateBody_routines : ∀ (items : List BodyItem) (st : Static) (n : Nat),
    ((elaborateBody items st).1.code n).filterMap Emitted.routine? =
      (bodyDefinitions items st).map (·.routine)
  | [], _, _ => rfl
  | .declaration d :: more, st, n => by
      have hfirst := filterMap_routine?_of_inner ((d.elaborate st).1.code_inner n)
      simp only [elaborateBody, Body.code, bodyDefinitions, List.filterMap_append, hfirst,
        elaborateBody_routines more, List.nil_append]
  | .statement s :: more, st, n => by
      have hfirst := filterMap_routine?_of_inner ((s.elaborate st).1.code_inner n)
      simp only [elaborateBody, Body.code, bodyDefinitions, List.filterMap_append, hfirst,
        elaborateBody_routines more, List.nil_append]
  | .nested p :: more, st, n => by
      have hjump : [jump n].filterMap Emitted.routine? = [] := rfl
      have hlanding : [landing n].filterMap Emitted.routine? = [] := rfl
      simp only [elaborateBody, Body.code, bodyDefinitions, List.filterMap_append, hjump, hlanding,
        p.routines_code st (n + 1), elaborateBody_routines more, List.nil_append, List.append_nil,
        List.map_append]
  | .skipped _ :: more, st, n => elaborateBody_routines more st n

end

theorem ProgramItem.routines_code (item : ProgramItem) (st : Static) (n : Nat) :
    (partsCode (item.elaborate st).1 n).filterMap Emitted.routine? =
      ((item.callables st).filterMap Callable.definition?).map (·.routine) := by
  cases item with
  | declaration d =>
    have hfirst := filterMap_routine?_of_inner ((d.elaborate st).1.code_inner n)
    simp only [elaborate, partsCode, Part.code, callables, List.append_nil, hfirst]
    rfl
  | procedure p =>
    simp only [elaborate, partsCode, Part.code, callables, List.append_nil,
      filterMap_definition?_procedure, p.routines_code]
  | external e => cases e <;> rfl
  | skipped token => rfl

theorem elaborateItems_routines (items : List ProgramItem) (st : Static) (n : Nat) :
    (partsCode (elaborateItems items st).1 n).filterMap Emitted.routine? =
      ((itemsCallables items st).filterMap Callable.definition?).map (·.routine) := by
  induction items generalizing st n with
  | nil => rfl
  | cons item more ih =>
    simp only [elaborateItems, partsCode_append, itemsCallables, List.filterMap_append,
      List.map_append, item.routines_code, ih]

/-- The procedures stand in the code in the order of their declarations. -/
theorem Program.routines_code (p : Program) :
    p.code.filterMap Emitted.routine? = p.definitions.map (·.routine) :=
  elaborateItems_routines p.items _ 0

namespace Program

/-- The code of the declaration with the number `k` starts at the address `e`. -/
structure EntersAt (p : Program) (k : Nat) (d : Definition) (e : Nat) : Prop where
  definition : p.definitions[k]? = some d
  entry : p.code[e]? = some d.routine.entry
  order : ((p.code.take e).filterMap Emitted.routine?).length = k

variable {p : Program} {τ : Nat → List Ty}

theorem Effects.exists_entersAt (h : p.Effects τ) {k : Nat} {d : Definition}
    (hd : p.definitions[k]? = some d) : ∃ e, p.EntersAt k d e := by
  have hroutine : (p.code.filterMap Emitted.routine?)[k]? = some d.routine := by
    rw [p.routines_code, List.getElem?_map, hd]
    rfl
  obtain ⟨e, x, hx, hr, hk⟩ := exists_getElem?_of_filterMap hroutine
  have hentry := ((h e x hx).eq_entry hr).1
  exact ⟨e, hd, hentry ▸ hx, hk⟩

theorem exists_entersAt_of_entry {e : Nat} {r : Routine} (he : p.code[e]? = some r.entry) :
    ∃ k d, p.EntersAt k d e ∧ d.routine = r := by
  have hroutine := getElem?_filterMap_of (f := Emitted.routine?) he rfl
  rw [p.routines_code, List.getElem?_map] at hroutine
  obtain ⟨d, hd, rfl⟩ := Option.map_eq_some_iff.mp hroutine
  exact ⟨_, d, ⟨hd, he, rfl⟩, rfl⟩

/-- Different addresses have different declarations, and the other way round. -/
theorem EntersAt.eq_iff {k k' e e' : Nat} {d d' : Definition} (h : p.EntersAt k d e)
    (h' : p.EntersAt k' d' e') : k = k' ↔ e = e' := by
  constructor
  · intro hk
    by_contra hne
    rcases Nat.lt_or_gt_of_ne hne with hlt | hlt
    · have hless := length_filterMap_take_lt (f := Emitted.routine?) h.entry rfl hlt
      have horder := h.order
      have horder' := h'.order
      omega
    · have hless := length_filterMap_take_lt (f := Emitted.routine?) h'.entry rfl hlt
      have horder := h.order
      have horder' := h'.order
      omega
  · intro he
    rw [← h.order, ← h'.order, he]

end Program

/-! ## Declarations with the same label -/

theorem Opened.names_inj {scopes : List Scope} {names names' : List String}
    (h : Opened scopes names) (h' : Opened scopes names') : names = names' := by
  induction scopes generalizing names names' with
  | nil =>
    cases names with
    | cons name names => exact h.elim
    | nil =>
      cases names' with
      | cons name' names' => exact h'.elim
      | nil => rfl
  | cons scope outer ih =>
    cases names with
    | nil => exact h.elim
    | cons name names =>
      cases names' with
      | nil => exact h'.elim
      | cons name' names' =>
        obtain ⟨⟨older, hentries⟩, hrest⟩ := h
        obtain ⟨⟨older', hentries'⟩, hrest'⟩ := h'
        have hsymbol := (List.cons.inj (hentries.symm.trans hentries')).1
        have hname : name = name' := congrArg Symbol.name hsymbol
        rw [hname, ih hrest hrest']

/-- What is around a declaration: the procedure that it is declared in, if it is in one. -/
theorem Reached.exists_parent {all : List Callable} {u : Use} {signatures : Signatures}
    (h : Reached all u signatures) :
    ∃ scope outer, u.scopes.scopes = scope :: outer ∧ Opened outer u.scopes.openProcedures ∧
      ∀ name opened, u.scopes.openProcedures = name :: opened →
        ∃ d older rest, .procedure d ∈ all ∧ d.site.name = name ∧ d.Stands older rest opened ∧
          ∃ top : Scope, outer = top :: rest ∧
            top.entries = procedureSymbol name (rest.length + 1) :: older := by
  obtain ⟨history, hfront, st, hknown, hscopes, rfl⟩ := h
  have hne := hknown.ne_nil
  have hopened := hknown.opened
  have hvisible := hknown.visible
  rw [hscopes] at hne hopened hvisible
  cases hstack : u.scopes.scopes with
  | nil => exact absurd hstack hne
  | cons scope outer =>
    rw [hstack] at hopened
    refine ⟨scope, outer, rfl, hopened, ?_⟩
    intro name opened hnames
    rw [hnames] at hopened
    cases outer with
    | nil => exact hopened.elim
    | cons top rest =>
      obtain ⟨⟨older, hentries⟩, -⟩ := hopened
      have hdeclares : u.scopes.Declares [scope] [] (procedureSymbol name (rest.length + 1)) older
          rest := ⟨top, hstack, hentries⟩
      obtain ⟨earlier, d, later, hhistory, hsymbol, hstands, -⟩ :=
        hvisible [scope] [] _ older rest hdeclares rfl
      have hmem : .procedure d ∈ all := hfront.mem (by rw [hhistory]; simp)
      have hname : d.site.name = name := (congrArg Symbol.name hsymbol).symm
      rw [hnames] at hstands
      exact ⟨d, older, rest, hmem, hname, hstands, top, rfl, hentries⟩

namespace Program

/-- Some scope of the program declares a procedure name twice.  A scope is told apart from others by
the scopes around it. -/
def Redeclares (p : Program) : Prop :=
  ∃ (k k' : Nat) (d d' : Definition), k ≠ k' ∧ p.definitions[k]? = some d ∧
    p.definitions[k']? = some d' ∧ d.site.name = d'.site.name ∧
    d.site.scopes.scopes.tail = d'.site.scopes.scopes.tail

/-- All declarations of the program stand at points where the procedures around them are known. -/
def Placed (p : Program) : Prop :=
  ∀ d ∈ p.definitions, (∃ signatures, Reached p.callables d.site signatures) ∧
    ∃ older outer opened, d.Stands older outer opened

variable {p : Program}

theorem mem_definitions {d : Definition} : d ∈ p.definitions ↔ .procedure d ∈ p.callables := by
  constructor
  · intro h
    obtain ⟨r, hr, hdefinition⟩ := List.mem_filterMap.mp h
    cases r with
    | external name types => simp [Callable.definition?] at hdefinition
    | procedure d' =>
      cases hdefinition
      exact hr
  · intro h
    exact List.mem_filterMap.mpr ⟨_, h, rfl⟩

/-- Declarations with the same path are in one scope, or the procedures around them have the same path
as well. -/
theorem redeclares_of_path_eq (hplaced : p.Placed) {k k' : Nat} {d d' : Definition}
    (hd : p.definitions[k]? = some d) (hd' : p.definitions[k']? = some d') (hne : k ≠ k')
    (hpath : d.path = d'.path) : p.Redeclares := by
  induction hopened : d.site.scopes.openProcedures generalizing k k' d d' with
  | nil =>
    obtain ⟨hsame, hname⟩ := Definition.path_inj.mp hpath
    obtain ⟨⟨signatures, hreached⟩, -⟩ := hplaced d (List.mem_of_getElem? hd)
    obtain ⟨⟨signatures', hreached'⟩, -⟩ := hplaced d' (List.mem_of_getElem? hd')
    obtain ⟨scope, outer, hscopes, houter, -⟩ := hreached.exists_parent
    obtain ⟨scope', outer', hscopes', houter', -⟩ := hreached'.exists_parent
    have hlength := houter.length_eq
    have hlength' := houter'.length_eq
    rw [← hsame] at hlength'
    rw [hopened] at hlength hlength'
    have hnil : outer = [] := List.eq_nil_of_length_eq_zero hlength
    have hnil' : outer' = [] := List.eq_nil_of_length_eq_zero hlength'
    refine ⟨k, k', d, d', hne, hd, hd', hname, ?_⟩
    rw [hscopes, hscopes', hnil, hnil']
    rfl
  | cons name opened ih =>
    obtain ⟨hsame, hname⟩ := Definition.path_inj.mp hpath
    obtain ⟨⟨signatures, hreached⟩, -⟩ := hplaced d (List.mem_of_getElem? hd)
    obtain ⟨⟨signatures', hreached'⟩, -⟩ := hplaced d' (List.mem_of_getElem? hd')
    obtain ⟨scope, outer, hscopes, -, hparent⟩ := hreached.exists_parent
    obtain ⟨scope', outer', hscopes', -, hparent'⟩ := hreached'.exists_parent
    by_cases houter : outer = outer'
    · refine ⟨k, k', d, d', hne, hd, hd', hname, ?_⟩
      rw [hscopes, hscopes', houter]
      rfl
    · obtain ⟨parent, older, rest, hmem, hparentName, hstands, top, htop, hentries⟩ :=
        hparent name opened hopened
      obtain ⟨parent', older', rest', hmem', hparentName', hstands', top', htop', hentries'⟩ :=
        hparent' name opened (hsame ▸ hopened)
      obtain ⟨j, hj⟩ := List.mem_iff_getElem?.mp (mem_definitions.mpr hmem)
      obtain ⟨j', hj'⟩ := List.mem_iff_getElem?.mp (mem_definitions.mpr hmem')
      have hparents : j ≠ j' := by
        -- One procedure has one place, and its scope continues there with its symbol.
        intro heq
        rw [heq, hj'] at hj
        cases hj
        obtain ⟨place, hplace, holder⟩ := hstands.place
        obtain ⟨place', hplace', holder'⟩ := hstands'.place
        obtain ⟨rfl, rfl⟩ := List.cons.inj (hplace.symm.trans hplace')
        have htops : top = top' := Scope.ext (by rw [hentries, hentries', ← holder, ← holder'])
        exact houter (by rw [htop, htop', htops])
      have hparentPath : parent.path = parent'.path := by
        rw [Definition.path_inj, hstands.opened, hstands'.opened, hparentName, hparentName']
        exact ⟨rfl, rfl⟩
      exact ih hj hj' hparents hparentPath hstands.opened

/-- Declarations in one scope have the same procedures around them. -/
theorem path_eq_of_tail_eq (hplaced : p.Placed) {d d' : Definition} (hd : d ∈ p.definitions)
    (hd' : d' ∈ p.definitions) (hname : d.site.name = d'.site.name)
    (htail : d.site.scopes.scopes.tail = d'.site.scopes.scopes.tail) : d.path = d'.path := by
  obtain ⟨⟨signatures, hreached⟩, -⟩ := hplaced d hd
  obtain ⟨⟨signatures', hreached'⟩, -⟩ := hplaced d' hd'
  obtain ⟨scope, outer, hscopes, houter, -⟩ := hreached.exists_parent
  obtain ⟨scope', outer', hscopes', houter', -⟩ := hreached'.exists_parent
  rw [hscopes, hscopes'] at htail
  have heq : outer = outer' := htail
  rw [← heq] at houter'
  exact Definition.path_inj.mpr ⟨houter.names_inj houter', hname⟩

theorem redeclares_iff (hplaced : p.Placed) : p.Redeclares ↔
    ∃ (k k' : Nat) (d d' : Definition), k ≠ k' ∧ p.definitions[k]? = some d ∧
      p.definitions[k']? = some d' ∧ d.routine.label = d'.routine.label := by
  constructor
  · rintro ⟨k, k', d, d', hne, hd, hd', hname, htail⟩
    have hmem := List.mem_of_getElem? hd
    have hmem' := List.mem_of_getElem? hd'
    obtain ⟨-, older, outer, opened, hstands⟩ := hplaced d hmem
    obtain ⟨-, older', outer', opened', hstands'⟩ := hplaced d' hmem'
    have hpath := path_eq_of_tail_eq hplaced hmem hmem' hname htail
    exact ⟨k, k', d, d', hne, hd, hd', by rw [hstands.label, hstands'.label, hpath]⟩
  · rintro ⟨k, k', d, d', hne, hd, hd', hlabel⟩
    obtain ⟨-, older, outer, opened, hstands⟩ := hplaced d (List.mem_of_getElem? hd)
    obtain ⟨-, older', outer', opened', hstands'⟩ := hplaced d' (List.mem_of_getElem? hd')
    exact redeclares_of_path_eq hplaced hd hd' hne (hstands.label_inj hstands' hlabel)

end Program

/-! ## Calls -/

theorem parse_named {source file : String} {p : Program} (h : parse source file = .ok p) :
    ∀ item ∈ p.items, item.Named IsProcedureName := by
  unfold parse at h
  cases hscan : scan source file with
  | error fault => simp [hscan, bind, Except.bind] at h
  | ok tokens =>
    simp only [hscan, bind, Except.bind, pure, Except.pure, Except.ok.injEq] at h
    subst h
    apply Window.readProgram_named .full (.inl rfl)
    exact fun t ht hkind => .inr (scan_names hscan t ht hkind)

theorem Emitted.Effect.of_call {ctx : Context} {x : Emitted} {σ σ' : List Ty} {callee : Use}
    {arguments : List Term} {signatures : Signatures} (h : x.Effect ctx σ σ')
    (hx : x.origin = .call callee arguments signatures) :
    ∃ types, List.Forall₂ Term.HasType arguments types ∧ callee.Accepts signatures types ∧
      σ = types.reverse := by
  cases h with
  | moves h =>
    cases h with
    | call harguments haccepts =>
      cases hx
      exact ⟨_, harguments, haccepts, rfl⟩
    | _ => cases hx
  | _ => cases hx

theorem Emitted.Effect.of_callOp {ctx : Context} {x : Emitted} {σ σ' : List Ty} {level : Nat}
    {label : Label} (h : x.Effect ctx σ σ') (hx : x.op = .call level label) :
    ∃ callee arguments signatures target, x.origin = .call callee arguments signatures ∧
      callee.target? = some target ∧ target.symbol.kind = .procedure ∧
      label = .named (callLabel callee.scopes target) := by
  cases h with
  | moves h =>
    cases h with
    | @call callee arguments signatures types harguments haccepts =>
      obtain ⟨target, htarget, hkind, -⟩ := haccepts
      have hop : Op.call (callee.scopes.callLevel target.symbol)
          (.named (callLabel callee.scopes target)) = .call level label := by
        rw [← hx, Emitted.op, Instruction.plain, Use.callOp, htarget]
      cases hop
      exact ⟨callee, arguments, signatures, target, rfl, htarget, hkind, rfl⟩
    | @load u =>
      have hcell : u.cell.loadOp = .call level label := hx
      cases hloaded : u.cell <;> rw [hloaded] at hcell <;> cases hcell
    | @store u =>
      have hcell : u.cell.storeOp = .call level label := hx
      cases hstored : u.cell <;> rw [hstored] at hcell <;> cases hcell
    | _ => cases hx
  | _ => cases hx

theorem Emitted.Effect.of_entry {ctx : Context} {r : Routine} {σ σ' : List Ty}
    (h : r.entry.Effect ctx σ σ') : σ = r.paramTypes.reverse := by
  have hr : r.entry.origin = .routine r := rfl
  generalize r.entry = x at h hr
  cases h with
  | moves h => cases h <;> cases hr
  | enter =>
    cases hr
    rfl
  | _ => cases hr

theorem Emitted.Effect.of_label {ctx : Context} {x : Emitted} {σ σ' : List Ty} {label : Label}
    (h : x.Effect ctx σ σ') (hx : x.instruction.label = some label) :
    (∃ n, label = .fresh n) ∨ ∃ r : Routine, x = r.entry ∧ label = .named r.label := by
  cases h with
  | moves h =>
    cases h with
    | landing n =>
      cases hx
      exact .inl ⟨n, rfl⟩
    | _ => cases hx
  | @enter r =>
    cases hx
    exact .inr ⟨r, rfl, rfl⟩
  | _ => cases hx

namespace Program

/-- A name in a call means the declaration with the number `k`: it denotes this declaration and no
other one of the program, and the code of the declaration starts at the address `e`. -/
structure Means (p : Program) (callee : Use) (k : Nat) (d : Definition) (e : Nat) : Prop
    extends p.EntersAt k d e where
  resolves : callee.ResolvesTo d
  unique : ∀ (k' : Nat) (d' : Definition), p.definitions[k']? = some d' → callee.ResolvesTo d' →
    k' = k

variable {p : Program} {τ : Nat → List Ty}

theorem eq_of_place_eq {k k' : Nat} {d d' : Definition} (hd : p.definitions[k]? = some d)
    (hd' : p.definitions[k']? = some d') (hplace : d.site.scopes.scopes = d'.site.scopes.scopes) :
    k' = k := by
  obtain ⟨hk, rfl⟩ := List.getElem?_eq_some_iff.mp hd
  obtain ⟨hk', rfl⟩ := List.getElem?_eq_some_iff.mp hd'
  have hpairwise := List.pairwise_iff_getElem.mp p.definitions_pairwise
  by_contra hne
  rcases Nat.lt_or_gt_of_ne hne with hlt | hlt
  · exact hpairwise k' k hk' hk hlt hplace.symm
  · exact hpairwise k k' hk hk' hlt hplace

/-- A call of a procedure of the program means one declaration, composes its label, and is checked by
the signature that is registered for it. -/
theorem Effects.exists_means (h : p.Effects τ) {callee : Use} {signatures : Signatures}
    (hreached : Reached p.callables callee signatures) {s : Symbol}
    (htarget : callee.target? = some ⟨s, false⟩) (hkind : s.kind = .procedure) :
    ∃ k d e earlier later, p.Means callee k d e ∧ p.callables = earlier ++ .procedure d :: later ∧
      callLabel callee.scopes ⟨s, false⟩ = d.routine.label ∧ d.Registered signatures later := by
  obtain ⟨earlier, d, later, hcallables, hresolves, hlabel, hregistered⟩ :=
    hreached.exists_resolvesTo htarget hkind
  have hd : p.definitions[(earlier.filterMap Callable.definition?).length]? = some d := by
    have hfirst : Callable.definition? (.procedure d) = some d := rfl
    rw [definitions, hcallables, List.filterMap_append, List.filterMap_cons_some hfirst,
      List.getElem?_append_right (Nat.le_refl _), Nat.sub_self]
    rfl
  obtain ⟨e, hentry⟩ := h.exists_entersAt hd
  refine ⟨_, d, e, earlier, later, ⟨hentry, hresolves, ?_⟩, hcallables, hlabel, hregistered⟩
  intro k' d' hd' hresolves'
  exact eq_of_place_eq hd hd' (hresolves.place_eq hresolves')

/-- The declaration belongs to the program itself, and an external procedure of its name, with these
parameters, is declared behind it. -/
def Overridden (p : Program) (d : Definition) (types : List Ty) : Prop :=
  d.site.scopes.openProcedures = [] ∧ ∃ earlier later,
    p.callables = earlier ++ .procedure d :: later ∧ .external d.site.name (some types) ∈ later

/-- Every call of a procedure of the program, at an address `a`, finds on the stack what the code of
the declaration that it means takes from there, unless the declaration is overridden. -/
def PassesArguments (p : Program) (τ : Nat → List Ty) : Prop :=
  ∀ (a : Nat) (x : Emitted) (callee : Use) (arguments : List Term) (signatures : Signatures)
    (s : Symbol), p.code[a]? = some x → x.origin = .call callee arguments signatures →
    callee.target? = some ⟨s, false⟩ →
      ∃ (types : List Ty) (k : Nat) (d : Definition) (e : Nat),
        List.Forall₂ Term.HasType arguments types ∧ p.Means callee k d e ∧
        τ a = types.reverse ∧ τ e = d.routine.paramTypes.reverse ∧
        (types = d.routine.paramTypes ∨ p.Overridden d types)

theorem StackTyping.passesArguments (h : p.StackTyping τ) {ρ : Nat → List Ty} (hρ : p.Effects ρ)
    (hcalls : Calls (Reached p.callables) p.code) : p.PassesArguments τ := by
  intro a x callee arguments signatures s hx horigin htarget
  obtain ⟨after, heffect, -, -⟩ := h.effect a x hx
  obtain ⟨types, harguments, ⟨target, htarget', hkind, haccepts⟩, hstack⟩ := heffect.of_call horigin
  have hsame : target = ⟨s, false⟩ := Option.some.inj (htarget'.symm.trans htarget)
  subst hsame
  have hreached : Reached p.callables callee signatures := by
    apply hcalls x (List.mem_of_getElem? hx)
    rw [Emitted.call?, horigin]
  obtain ⟨k, d, e, earlier, later, hmeans, hcallables, hlabel, hregistered⟩ :=
    hρ.exists_means hreached htarget hkind
  have hentry : τ e = d.routine.paramTypes.reverse := by
    obtain ⟨after, heffect, -, -⟩ := h.effect e _ hmeans.entry
    exact heffect.of_entry
  refine ⟨types, k, d, e, harguments, hmeans, hstack, hentry, ?_⟩
  rw [hlabel] at haccepts
  rcases hregistered with hown | ⟨hopened, types', hmem, hget⟩
  · exact .inl (haccepts _ hown).symm
  · have htypes : types' = types := haccepts _ hget
    exact .inr ⟨hopened, earlier, later, hcallables, htypes ▸ hmem⟩

end Program

/-- A call passes what the declaration that it means takes.  The only exception are procedures of the
program behind which an external procedure of the same name is declared: the arguments are those of
the external one then. -/
theorem call_arguments_match_declaration {source file : String} {minDistance : Nat}
    {c : Compilation} (hcompile : compile source file minDistance = .ok c)
    (hcount : c.errorCount = 0) :
    ∃ (p : Program) (τ : Nat → List Ty), parse source file = .ok p ∧
      c.listing = header p.globals p.externals ++ erase p.code ∧ p.StackTyping τ ∧
      p.PassesArguments τ := by
  obtain ⟨p, hparse, hp⟩ := exists_compilesTo hcompile hcount
  obtain ⟨drawn, hlinked⟩ := compile_linked hcompile
  obtain ⟨ρ, hstart, hρ⟩ := hp.exists_effects
  have htyping := hp.stackTyping hρ hstart hlinked
  exact ⟨p, _, hparse, hp.listing, htyping,
    htyping.passesArguments hρ (p.walked (parse_named hparse)).1⟩

theorem call_arguments_match_declaration_sampleText :
    ∃ c, compile sampleText "sample" 2 = .ok c ∧ c.errorCount = 0 ∧
      ∃ (p : Program) (τ : Nat → List Ty), parse sampleText "sample" = .ok p ∧
        c.listing = header p.globals p.externals ++ erase p.code ∧ p.StackTyping τ ∧
        p.PassesArguments τ := by
  obtain ⟨c, hcompile, hcount⟩ := sampleText_accepted
  exact ⟨c, hcompile, hcount, call_arguments_match_declaration hcompile hcount⟩

/-- A procedure with an integer parameter, overridden by an external one with a Boolean, which is what
the call passes. -/
def overriddenText : String :=
  "program p \x7b void q(int x) \x7b \x7d external procedure q(bool); void r() \x7b q(true); \x7d \x7d"

theorem overriddenText_accepted :
    (compile overriddenText "shell" 2).toOption.map (fun c => (c.errorCount, c.listing.drop 4)) =
      some (0,
        [.labelled (.named "q") (.enter 1), .plain (.store 0 0), .plain .leave, .plain .ret,
          .labelled (.named "r") (.enter 0), .plain (.const 1), .plain (.call 1 (.named "q")),
          .plain .leave, .plain .ret]) := by
  decide +kernel

/-! ## Labels -/

/-- No label is carried by two instructions. -/
def LabelsDistinct (listing : List Instruction) : Prop :=
  ∀ (a b : Nat) (i j : Instruction) (text : String), listing[a]? = some i → listing[b]? = some j →
    i.carries text = true → j.carries text = true → a = b

/-- What a call with this label goes to: an external procedure of the name that is called, or the
declaration which the name means, whose first instruction carries the label.  No other instruction
carries it if no scope declares a procedure name twice. -/
inductive Program.Target (p : Program) (callee : Use) (label : String) : Prop where
  | external {s : Symbol} {types : Option (List Ty)} (htarget : callee.target? = some ⟨s, true⟩)
      (hlabel : label = callee.name) (hdeclared : .external label types ∈ p.callables)
  | declared {k : Nat} {d : Definition} {e : Nat} (hmeans : p.Means callee k d e)
      (hlabel : label = d.routine.label)
      (honly : ¬ p.Redeclares → ∀ (b : Nat) (y : Emitted), p.code[b]? = some y →
        y.instruction.carries label = true → b = e)

namespace Program

variable {p : Program} {τ : Nat → List Ty}

theorem carries_entry (r : Routine) : r.entry.instruction.carries r.label = true := by
  simp [Routine.entry, Instruction.carries, Instruction.labelled, Label.text]

/-- Two instructions carry the same label only if some scope declares a procedure name twice. -/
theorem Effects.eq_of_carries (h : p.Effects τ) (hplaced : p.Placed)
    (hcount : ∀ n, (erase p.code).countP (·.carries (Label.fresh n).text) ≤ 1)
    (hdistinct : ¬ p.Redeclares) {a b : Nat} {x y : Emitted} {text : String}
    (hx : p.code[a]? = some x) (hy : p.code[b]? = some y)
    (htext : x.instruction.carries text = true) (htext' : y.instruction.carries text = true) :
    a = b := by
  have hfresh : ∀ n, text = (Label.fresh n).text → a = b := by
    intro n hn
    rw [hn] at htext htext'
    have ha := findIdx?_of_countP_le_one (hcount n) (k := a) (by simp [erase, hx]) htext
    have hb := findIdx?_of_countP_le_one (hcount n) (k := b) (by simp [erase, hy]) htext'
    exact Option.some.inj (ha.symm.trans hb)
  obtain ⟨label, hlabel, hsame⟩ : ∃ label, x.instruction.label = some label ∧ label.text = text := by
    simpa [Instruction.carries, Option.any_eq_true] using htext
  obtain ⟨label', hlabel', hsame'⟩ :
      ∃ label, y.instruction.label = some label ∧ label.text = text := by
    simpa [Instruction.carries, Option.any_eq_true] using htext'
  rcases (h a x hx).of_label hlabel with ⟨n, rfl⟩ | ⟨r, rfl, rfl⟩
  · exact hfresh n hsame.symm
  · rcases (h b y hy).of_label hlabel' with ⟨n, rfl⟩ | ⟨r', rfl, rfl⟩
    · exact hfresh n hsame'.symm
    · obtain ⟨k, d, hentry, rfl⟩ := exists_entersAt_of_entry hx
      obtain ⟨k', d', hentry', rfl⟩ := exists_entersAt_of_entry hy
      apply (hentry.eq_iff hentry').mp
      by_contra hne
      exact hdistinct ((redeclares_iff hplaced).mpr
        ⟨k, k', d, d', hne, hentry.definition, hentry'.definition, hsame.trans hsame'.symm⟩)

theorem Effects.labelsDistinct_iff (h : p.Effects τ) (hplaced : p.Placed)
    (hcount : ∀ n, (erase p.code).countP (·.carries (Label.fresh n).text) ≤ 1) :
    LabelsDistinct (erase p.code) ↔ ¬ p.Redeclares := by
  constructor
  · intro hdistinct hredeclares
    obtain ⟨k, k', d, d', hne, hd, hd', hlabel⟩ := (redeclares_iff hplaced).mp hredeclares
    obtain ⟨e, hentry⟩ := h.exists_entersAt hd
    obtain ⟨e', hentry'⟩ := h.exists_entersAt hd'
    apply hne
    apply (hentry.eq_iff hentry').mpr
    apply hdistinct e e' d.routine.entry.instruction d'.routine.entry.instruction d.routine.label
    · simp [erase, hentry.entry]
    · simp [erase, hentry'.entry]
    · exact carries_entry d.routine
    · rw [hlabel]
      exact carries_entry d'.routine
  · intro hdistinct a b i j text hi hj hcarries hcarries'
    obtain ⟨x, hx, rfl⟩ : ∃ x, p.code[a]? = some x ∧ x.instruction = i := by
      simpa [erase] using hi
    obtain ⟨y, hy, rfl⟩ : ∃ y, p.code[b]? = some y ∧ y.instruction = j := by
      simpa [erase] using hj
    exact h.eq_of_carries hplaced hcount hdistinct hx hy hcarries hcarries'

theorem Effects.target (h : p.Effects τ) (hplaced : p.Placed)
    (hcalls : Calls (Reached p.callables) p.code)
    (hcount : ∀ n, (erase p.code).countP (·.carries (Label.fresh n).text) ≤ 1) {a level : Nat}
    {x : Emitted} {label : Label} (hx : p.code[a]? = some x) (hop : x.op = .call level label) :
    ∃ callee arguments signatures, x.origin = .call callee arguments signatures ∧
      p.Target callee label.text := by
  obtain ⟨callee, arguments, signatures, ⟨s, external⟩, horigin, htarget, hkind, rfl⟩ :=
    (h a x hx).of_callOp hop
  have hreached : Reached p.callables callee signatures := by
    apply hcalls x (List.mem_of_getElem? hx)
    rw [Emitted.call?, horigin]
  refine ⟨callee, arguments, signatures, horigin, ?_⟩
  cases external with
  | false =>
    obtain ⟨k, d, e, earlier, later, hmeans, -, hlabel, -⟩ := h.exists_means hreached htarget hkind
    refine .declared hmeans hlabel ?_
    intro hdistinct b y hy hcarries
    apply h.eq_of_carries hplaced hcount hdistinct hy hmeans.entry hcarries
    rw [Label.text, hlabel]
    exact carries_entry d.routine
  | true =>
    cases ScopeStack.resolve_eq_some_iff.mp htarget with
    | external hlacks hlatest =>
      obtain ⟨history, hfront, st, hknown, hscopes, rfl⟩ := hreached
      have hmem := hlatest.mem
      rw [← hscopes] at hmem
      obtain ⟨types, hdeclared⟩ := hknown.externals s hmem hkind
      exact .external htarget hlatest.1 (hfront.mem hdeclared)

end Program

theorem labelsDistinct_header_append (globals externals : Scope) (code : List Instruction) :
    LabelsDistinct (header globals externals ++ code) ↔ LabelsDistinct code := by
  have hheader : ∀ i ∈ header globals externals, ∀ text, i.carries text = false := by
    intro i hi text
    obtain ⟨d, -, rfl⟩ := List.mem_map.mp hi
    rfl
  constructor
  · intro h a b i j text hi hj hcarries hcarries'
    have hshift : ∀ k, (header globals externals ++ code)[(header globals externals).length + k]? =
        code[k]? := by
      intro k
      rw [List.getElem?_append_right (Nat.le_add_right _ _), Nat.add_sub_cancel_left]
    have heq := h _ _ i j text ((hshift a).trans hi) ((hshift b).trans hj) hcarries hcarries'
    omega
  · intro h a b i j text hi hj hcarries hcarries'
    rcases getElem?_append_eq_some hi with hfirst | ⟨a', rfl, hfirst⟩
    · simp [hheader i (List.mem_of_getElem? hfirst)] at hcarries
    · rcases getElem?_append_eq_some hj with hsecond | ⟨b', rfl, hsecond⟩
      · simp [hheader j (List.mem_of_getElem? hsecond)] at hcarries'
      · rw [h a' b' i j text hfirst hsecond hcarries hcarries']

/-- Labels are carried once if and only if no scope declares a procedure name twice, and every call
goes to an external procedure or to the code of the declaration that it means. -/
theorem call_targets_exact {source file : String} {minDistance : Nat} {c : Compilation}
    (hcompile : compile source file minDistance = .ok c) (hcount : c.errorCount = 0) :
    ∃ p : Program, parse source file = .ok p ∧
      c.listing = header p.globals p.externals ++ erase p.code ∧
      (LabelsDistinct c.listing ↔ ¬ p.Redeclares) ∧
      ∀ (a : Nat) (x : Emitted) (level : Nat) (label : Label), p.code[a]? = some x →
        x.op = .call level label → ∃ callee arguments signatures,
          x.origin = .call callee arguments signatures ∧ p.Target callee label.text := by
  obtain ⟨p, hparse, hp⟩ := exists_compilesTo hcompile hcount
  obtain ⟨τ, -, heffects⟩ := hp.exists_effects
  obtain ⟨hcalls, hplaced⟩ := p.walked (parse_named hparse)
  obtain ⟨drawn, hlinked⟩ := compile_linked hcompile
  have hfresh : ∀ n, (erase p.code).countP (·.carries (Label.fresh n).text) ≤ 1 := by
    intro n
    have hcarried := hlinked.carried n
    rw [hp.listing, List.countP_append] at hcarried
    split at hcarried <;> omega
  refine ⟨p, hparse, hp.listing, ?_, ?_⟩
  · rw [hp.listing, labelsDistinct_header_append]
    exact heffects.labelsDistinct_iff hplaced hfresh
  · intro a x level label hx hop
    exact heffects.target hplaced hcalls hfresh hx hop

theorem call_targets_exact_sampleText :
    ∃ c, compile sampleText "sample" 2 = .ok c ∧ c.errorCount = 0 ∧
      ∃ p : Program, parse sampleText "sample" = .ok p ∧
        c.listing = header p.globals p.externals ++ erase p.code ∧
        (LabelsDistinct c.listing ↔ ¬ p.Redeclares) ∧
        ∀ (a : Nat) (x : Emitted) (level : Nat) (label : Label), p.code[a]? = some x →
          x.op = .call level label → ∃ callee arguments signatures,
            x.origin = .call callee arguments signatures ∧ p.Target callee label.text := by
  obtain ⟨c, hcompile, hcount⟩ := sampleText_accepted
  exact ⟨c, hcompile, hcount, call_targets_exact hcompile hcount⟩

/-- Two procedures of one name in one scope, and a call of the second one. -/
def redeclaredText : String :=
  "program p \x7b void q() \x7b \x7d void q() \x7b \x7d void r() \x7b q(); \x7d \x7d"

theorem redeclaredText_accepted :
    (compile redeclaredText "shell" 2).toOption.map (fun c => (c.errorCount, c.listing.drop 4)) =
      some (0,
        [.labelled (.named "q") (.enter 0), .plain .leave, .plain .ret,
          .labelled (.named "q") (.enter 0), .plain .leave, .plain .ret,
          .labelled (.named "r") (.enter 0), .plain (.call 1 (.named "q")), .plain .leave,
          .plain .ret]) := by
  decide +kernel

end SlotLang
