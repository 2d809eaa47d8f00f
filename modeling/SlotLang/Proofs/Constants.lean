import Mathlib.Data.List.Nodup
import SlotLang.Proofs.Addressing
import SlotLang.Proofs.Initials

/-!
# Constants are written once

A slot is written by a `StoG`, or by a `Sto` from the procedure that owns it or from a procedure
inside that one.  The slot of a constant is written by a single instruction of the listing, namely by
the one that its declaration has emitted.

Which constant a store stands for is known from its origin, and stores into constants are those of
declarations.  What remains is to count them: in the own code of a procedure there is one for each
constant of its frame.
-/

namespace SlotLang

open Emitted

/-! ## The own code of a routine -/

/-- The instructions of a piece of code, with their addresses, that belong to the routine which is
entered at this address, or to no routine. -/
def ownCode (o : Option Nat) : List (Nat × Routine) → Nat → List Emitted → List (Nat × Emitted)
  | _, _, [] => []
  | opened, a, x :: rest =>
      (if (entered opened a x).head?.map (·.1) = o then [(a, x)] else []) ++
        ownCode o (left opened a x) (a + 1) rest

section

variable {o : Option Nat} {opened : List (Nat × Routine)} {a : Nat}

theorem ownCode_append (first second : List Emitted) :
    ownCode o opened a (first ++ second) =
      ownCode o opened a first ++ ownCode o (leaving opened a first) (a + first.length) second := by
  induction first generalizing opened a with
  | nil => rfl
  | cons x first ih =>
    simp only [List.cons_append, ownCode, leaving, ih, List.length_cons, List.append_assoc]
    rw [Nat.add_assoc, Nat.add_comm 1]

theorem ownCode_sublist (code : List Emitted) :
    ((ownCode o opened a code).map (·.2)).Sublist code := by
  induction code generalizing opened a with
  | nil => exact .slnil
  | cons x code ih =>
    rw [ownCode]
    split
    · exact ih.cons_cons x
    · exact ih.cons x

theorem mem_ownCode {code : List Emitted} {b : Nat} {x : Emitted} :
    (b, x) ∈ ownCode o opened a code ↔ ∃ k, b = a + k ∧ code[k]? = some x ∧
      (entered (leaving opened a (code.take k)) b x).head?.map (·.1) = o := by
  induction code generalizing opened a with
  | nil => simp [ownCode]
  | cons y code ih =>
    rw [ownCode, List.mem_append, ih]
    constructor
    · rintro (hy | ⟨k, rfl, hx, howner⟩)
      · split at hy
        next howner =>
          cases List.mem_singleton.mp hy
          exact ⟨0, rfl, rfl, howner⟩
        next => simp at hy
      · exact ⟨k + 1, by omega, hx, howner⟩
    · rintro ⟨_ | k, rfl, hx, howner⟩
      · cases hx
        have howner : (entered opened b x).head?.map (·.1) = o := howner
        left
        rw [if_pos howner]
        exact List.mem_singleton.mpr rfl
      · exact .inr ⟨k, by omega, hx, howner⟩

/-- Code that stands neither inside the routine nor around its entry. -/
theorem ownCode_eq_nil {e : Nat} {code : List Emitted} (hopened : ∀ pair ∈ opened, pair.1 ≠ e)
    (hcode : e < a ∨ a + code.length ≤ e) : ownCode (some e) opened a code = [] := by
  rw [List.eq_nil_iff_forall_not_mem]
  rintro ⟨b, x⟩ hmem
  obtain ⟨k, rfl, hx, howner⟩ := mem_ownCode.mp hmem
  have hlt : k < code.length := (List.getElem?_eq_some_iff.mp hx).1
  obtain ⟨⟨e', r⟩, hhead, rfl⟩ := Option.map_eq_some_iff.mp howner
  rcases mem_entered (List.mem_of_head? hhead) with hmem | ⟨rfl, -⟩
  · rcases mem_leaving hmem with hmem | ⟨j, y, hy, rfl, -⟩
    · exact hopened _ hmem rfl
    · have hj : j < (code.take k).length := (List.getElem?_eq_some_iff.mp hy).1
      rw [List.length_take] at hj
      dsimp only at hcode
      omega
  · dsimp only at hcode
    omega

/-! ## Stores into constants in the own code -/

def ownStores (o : Option Nat) (opened : List (Nat × Routine)) (a : Nat) (code : List Emitted) :
    List Use :=
  constantStores ((ownCode o opened a code).map (·.2))

theorem ownStores_append (first second : List Emitted) :
    ownStores o opened a (first ++ second) =
      ownStores o opened a first ++
        ownStores o (leaving opened a first) (a + first.length) second := by
  simp [ownStores, ownCode_append]

theorem ownStores_of_nil {code : List Emitted} (h : constantStores code = []) :
    ownStores o opened a code = [] := by
  have hsublist : (ownStores o opened a code).Sublist (constantStores code) :=
    (ownCode_sublist code).filterMap _
  rw [h] at hsublist
  exact List.sublist_nil.mp hsublist

theorem ownCode_of_inner {code : List Emitted} (h : code.all Emitted.inner = true) :
    (ownCode o opened a code).map (·.2) = if opened.head?.map (·.1) = o then code else [] := by
  induction code generalizing a with
  | nil => simp [ownCode]
  | cons x code ih =>
    obtain ⟨hx, hcode⟩ := (List.all_cons ▸ Bool.and_eq_true_iff).mp h
    rw [ownCode, entered_of_inner hx, left_of_inner hx, List.map_append, ih hcode]
    split <;> rfl

theorem ownStores_of_inner {code : List Emitted} (h : code.all Emitted.inner = true) :
    ownStores o opened a code = if opened.head?.map (·.1) = o then constantStores code else [] := by
  rw [ownStores, ownCode_of_inner h]
  split <;> rfl

/-- Only the body of a routine has such stores. -/
theorem Routine.ownStores_around (r : Routine) (code : List Emitted) :
    ownStores o opened a (r.around code) =
      ownStores o ((a, r) :: opened) (a + 1 + r.params.length) code := by
  have haround : r.around code =
      [r.entry] ++ (prologue r.params.length ++ (code ++ [plain .leave, plain .ret])) := by
    simp [around]
  have hentry : leaving opened a [r.entry] = (a, r) :: opened := rfl
  have hend : constantStores [plain .leave, plain .ret] = [] := by simp
  rw [haround, ownStores_append, ownStores_append, ownStores_append,
    ownStores_of_nil (by simp : constantStores [r.entry] = []),
    ownStores_of_nil (constantStores_prologue _), ownStores_of_nil hend, hentry,
    leaving_of_inner (prologue_inner _)]
  simp [prologue]

theorem Routine.leaving_around (r : Routine) (n : Nat) :
    leaving opened a (r.around (r.body.code n)) = opened := by
  simp only [around, leaving, leaving_append, leaving_of_inner (prologue_inner r.params.length),
    r.body.leaving_code]
  rfl

end

/-- The body of a routine stores into the constants that the routine declares. -/
theorem Body.ownStores_code {o : Option Nat} : ∀ (body : Body) (opened : List (Nat × Routine))
    (n a : Nat), (∀ e, o = some e → e < a) → body.WellTyped →
    ownStores o opened a (body.code n) =
      if opened.head?.map (·.1) = o then body.initials else []
  | .done, _, _, _, _, _ => by simp [Body.code, Body.initials, ownStores, ownCode]
  | .action first rest, opened, n, a, ho, htyped => by
      have hrest := rest.ownStores_code opened (n + first.labels) (a + (first.code n).length)
        (fun e he => Nat.lt_add_right _ (ho e he)) htyped.2
      rw [Body.code, ownStores_append, leaving_of_inner (first.code_inner n), hrest,
        ownStores_of_inner (first.code_inner n), first.constantStores_code n htyped.1]
      split <;> simp [Body.initials]
  | .nested label params frame body rest, opened, n, a, ho, htyped => by
      let r : Routine := ⟨label, params, frame, body⟩
      have hinside : ownStores o opened (a + 1) (r.around (body.code (n + 1))) = [] := by
        rw [r.ownStores_around, body.ownStores_code _ _ _ (fun e he => by have := ho e he; omega)
          htyped.1.2]
        refine if_neg ?_
        intro howner
        exact absurd (ho _ howner.symm) (by simp)
      have hrest := rest.ownStores_code opened (n + 1 + body.labels)
        (a + 1 + (r.around (body.code (n + 1))).length + 1) (fun e he => by have := ho e he; omega)
        htyped.2
      have hleaving : leaving opened (a + 1) (r.around (body.code (n + 1))) = opened :=
        r.leaving_around (n + 1)
      have hcode : (Body.nested label params frame body rest).code n =
          [jump n] ++ (r.around (body.code (n + 1)) ++ ([landing n] ++
            rest.code (n + 1 + body.labels))) := by
        simp [Body.code, r]
      rw [hcode, ownStores_append, ownStores_append, ownStores_append,
        leaving_of_inner (by simp : [jump n].all Emitted.inner = true),
        leaving_of_inner (by simp : [landing n].all Emitted.inner = true),
        ownStores_of_nil (by simp : constantStores [jump n] = []),
        ownStores_of_nil (by simp : constantStores [landing n] = []),
        List.length_singleton, List.length_singleton, hinside, hleaving, hrest]
      rfl

theorem ownStores_partsCode {parts : List Part} (n a : Nat)
    (htyped : ∀ part ∈ parts, part.WellTyped) :
    ownStores none [] a (partsCode parts n) = parts.flatMap Part.initials := by
  induction parts generalizing n a with
  | nil => rfl
  | cons part parts ih =>
    have hpart := htyped part List.mem_cons_self
    have hfirst : ownStores none [] a (part.code n) = part.initials ∧
        leaving [] a (part.code n) = [] := by
      cases part with
      | action x =>
        refine ⟨?_, leaving_of_inner (x.code_inner n)⟩
        rw [Part.code, ownStores_of_inner (x.code_inner n), x.constantStores_code n hpart]
        rfl
      | routine r =>
        refine ⟨?_, r.leaving_around n⟩
        rw [Part.code, r.ownStores_around, r.body.ownStores_code _ _ _ (by simp) hpart.2]
        rfl
    rw [partsCode, ownStores_append, hfirst.1, hfirst.2,
      ih _ _ fun q hq => htyped q (List.mem_cons_of_mem _ hq), List.flatMap_cons]

theorem Routine.StandsIn.ownStores_eq {r : Routine} {e : Nat} {code : List Emitted}
    (h : r.StandsIn e code) (htyped : r.body.WellTyped) :
    ownStores (some e) [] 0 code = r.body.initials := by
  obtain ⟨front, back, n, rfl, rfl⟩ := h
  have hfront : ownStores (some front.length) [] 0 front = [] := by
    rw [ownStores, ownCode_eq_nil (by simp) (by simp)]
    rfl
  have hback : ownStores (some front.length) (leaving [] 0 front)
      (front.length + (r.around (r.body.code n)).length) back = [] := by
    rw [ownStores, ownCode_eq_nil ?_ (.inl (by simp [around]))]
    · rfl
    · rintro ⟨e, s⟩ hmem
      rcases mem_leaving hmem with hnil | ⟨k, x, hx, rfl, -⟩
      · simp at hnil
      · have hlt : k < front.length := (List.getElem?_eq_some_iff.mp hx).1
        dsimp only
        omega
  rw [List.append_assoc, ownStores_append, ownStores_append, Nat.zero_add, r.leaving_around,
    hfront, hback, r.ownStores_around, r.body.ownStores_code _ _ _ ?_ htyped]
  · simp
  · rintro e ⟨⟩
    omega

/-! ## Routines in the code -/

theorem Body.WellTyped.every : ∀ {body : Body}, body.WellTyped →
    body.Every fun r => r.body.WellTyped
  | .done, _ => trivial
  | .action _ rest, htyped => by
      have hrest : rest.WellTyped := htyped.2
      exact hrest.every
  | .nested _ _ _ body rest, htyped => by
      have hbody : body.WellTyped := htyped.1.2
      have hrest : rest.WellTyped := htyped.2
      exact ⟨⟨hbody, hbody.every⟩, hrest.every⟩

theorem Part.WellTyped.every {part : Part} (htyped : part.WellTyped) :
    part.Every fun r => r.body.WellTyped := by
  cases part with
  | action a => trivial
  | routine r =>
    have hbody : r.body.WellTyped := htyped.2
    exact ⟨hbody, hbody.every⟩

section

variable {P : Routine → Prop} {x : Emitted} {s : Routine}

theorem false_of_mem_inner {code : List Emitted} (h : code.all Emitted.inner = true)
    (hx : x ∈ code) (hs : x.routine? = some s) : False := by
  have hinner := List.all_eq_true.mp h x hx
  simp [(Emitted.inner_iff.mp hinner).1] at hs

/-- The routine of an entry has what all routines have. -/
theorem Routine.holds_of_mem_around {r : Routine} {code : List Emitted} (hr : P r)
    (hcode : x ∈ code → P s) (hx : x ∈ r.around code) (hs : x.routine? = some s) : P s := by
  rcases List.mem_cons.mp hx with rfl | hx
  · cases hs
    exact hr
  rcases List.mem_append.mp hx with hx | hx
  · rcases List.mem_append.mp hx with hx | hx
    · exact (false_of_mem_inner (prologue_inner _) hx hs).elim
    · exact hcode hx
  · have hend : x = plain .leave ∨ x = plain .ret := by simpa using hx
    rcases hend with rfl | rfl <;> cases hs

theorem Body.Every.holds (hs : x.routine? = some s) : ∀ {body : Body} {n : Nat}, body.Every P →
    x ∈ body.code n → P s
  | .done, _, _, hx => by simp [Body.code] at hx
  | .action a rest, n, hevery, hx => by
      rcases List.mem_append.mp hx with hx | hx
      · exact (false_of_mem_inner (a.code_inner n) hx hs).elim
      · have hrest : rest.Every P := hevery
        exact Body.Every.holds hs hrest hx
  | .nested label params frame body rest, n, hevery, hx => by
      have hcode : x ∈ [jump n] ++ (Routine.around ⟨label, params, frame, body⟩
          (body.code (n + 1)) ++ ([landing n] ++ rest.code (n + 1 + body.labels))) := by
        simpa [Body.code] using hx
      rcases List.mem_append.mp hcode with hx | hx
      · exact (false_of_mem_inner (by simp) hx hs).elim
      rcases List.mem_append.mp hx with hx | hx
      · exact Routine.holds_of_mem_around hevery.1.1 (Body.Every.holds hs hevery.1.2) hx hs
      rcases List.mem_append.mp hx with hx | hx
      · exact (false_of_mem_inner (by simp) hx hs).elim
      · exact Body.Every.holds hs hevery.2 hx

theorem holds_of_mem_partsCode {parts : List Part} {n : Nat} (h : ∀ part ∈ parts, part.Every P)
    (hx : x ∈ partsCode parts n) (hs : x.routine? = some s) : P s := by
  induction parts generalizing n with
  | nil => simp [partsCode] at hx
  | cons part parts ih =>
    rcases List.mem_append.mp hx with hx | hx
    · have hpart := h part List.mem_cons_self
      cases part with
      | action a => exact (false_of_mem_inner (a.code_inner n) hx hs).elim
      | routine r => exact Routine.holds_of_mem_around hpart.1 (hpart.2.holds hs) hx hs
    · exact ih (fun q hq => h q (List.mem_cons_of_mem _ hq)) hx

end

/-! ## Slots -/

/-- A place of storage: a slot of the program, or one in the frame that is made at an entry. -/
inductive Slot where
  | global (offset : Nat)
  | frame (entry offset : Nat)
  deriving DecidableEq, Repr

/-- The slot that an operation writes, if these are the entries around it, the innermost first. -/
def Op.slot? (entries : List Nat) : Op → Option Slot
  | .storeGlobal (.slot offset) => some (.global offset)
  | .store level offset => entries[level]?.map fun e => .frame e offset
  | _ => none

/-- The slot that an instruction of a listing writes. -/
def storedSlot (listing : List Instruction) (a : Nat) : Option Slot :=
  listing[a]?.bind fun i => i.op.slot? (enclosing listing a)

/-- The slot of a symbol that is declared in the program or in the routine which is entered there. -/
def Symbol.slot? (s : Symbol) (o : Option Nat) : Option Slot :=
  s.offset.map fun offset =>
    match o with
    | none => .global (offset + reservedSlots)
    | some e => .frame e offset

theorem storedSlot_eq {code : List Emitted} {a : Nat} {x : Emitted} (hx : code[a]? = some x) :
    storedSlot (erase code) a = x.op.slot? (enclosing (erase code) a) := by
  simp [storedSlot, erase, hx, Emitted.op]

theorem exists_of_storedSlot {code : List Emitted} {a : Nat} {slot : Slot}
    (h : storedSlot (erase code) a = some slot) :
    ∃ x cell, code[a]? = some x ∧ x.op = Cell.storeOp cell := by
  cases hx : code[a]? with
  | none => simp [storedSlot, erase, hx] at h
  | some x =>
    rw [storedSlot_eq hx] at h
    unfold Op.slot? at h
    split at h
    next offset hop => exact ⟨x, .global (.slot offset), rfl, hop⟩
    next level offset hop => exact ⟨x, .frame level offset, rfl, hop⟩
    next => cases h

theorem Use.Sets.cell_cases {u : Use} {s : Symbol} (h : u.Sets s) :
    ∃ offset, s.offset = some offset ∧
      (u.scopes.scopes.length = 1 ∧ u.cell = .global (.slot (offset + reservedSlots)) ∨
        1 < u.scopes.scopes.length ∧ u.cell = .frame 0 offset) := by
  have htarget := h.target
  obtain ⟨scope, outer, ty, rfl, hscopes⟩ := h
  refine ⟨scope.slots, rfl, ?_⟩
  simp only [Use.cell, htarget, Resolved.cell, Resolved.storage, Symbol.isGlobal, hscopes,
    List.length_cons, ScopeStack.dataLevel, ScopeStack.depth]
  cases outer with
  | nil => exact .inl ⟨rfl, rfl⟩
  | cons next outer => exact .inr ⟨by simp, by simp⟩

theorem LaidOut.nodup_offsets {depth : Nat} {entries : List Symbol} (h : LaidOut depth entries) :
    ((entries.filter (·.kind.hasStorage)).map (·.offset)).Nodup :=
  List.pairwise_map.mpr h.pairwise_offset_ne

theorem LaidOut.eq_of_offset_eq {depth : Nat} {entries : List Symbol} (h : LaidOut depth entries)
    {s t : Symbol} (hs : s ∈ entries) (ht : t ∈ entries) (hstorage : s.kind.hasStorage = true)
    (htstorage : t.kind.hasStorage = true) (hoffset : s.offset = t.offset) : s = t :=
  List.inj_on_of_nodup_map h.nodup_offsets (List.mem_filter.mpr ⟨hs, hstorage⟩)
    (List.mem_filter.mpr ⟨ht, htstorage⟩) hoffset

theorem Scope.mem_constants {scope : Scope} {s : Symbol} :
    s ∈ scope.constants ↔ s ∈ scope.entries ∧ s.kind = .const := by
  simp [constants, symbols]

theorem LaidOut.nodup_constants {depth : Nat} {scope : Scope} (h : LaidOut depth scope.entries) :
    scope.constants.Nodup := by
  have hsublist : (scope.entries.filter (·.kind = .const)).Sublist
      (scope.entries.filter (·.kind.hasStorage)) := by
    refine List.monotone_filter_right _ ?_
    intro s hs
    have hkind : s.kind = .const := by simpa using hs
    simp [hkind, SymbolKind.hasStorage]
  rw [Scope.constants, Scope.symbols, List.filter_reverse]
  exact List.nodup_reverse.mpr (h.nodup_offsets.of_map.sublist hsublist)

/-- What stores in well typed code are: those of names, and those of the arguments of a call. -/
theorem Emitted.Effect.of_isStore {ctx : Context} {x : Emitted} {σ σ' : List Ty}
    (h : x.Effect ctx σ σ') (hstore : x.op.isStore = true) :
    (∃ u s, x = Emitted.store u ∧ ctx.Accesses u s) ∨
    ∃ r k s, x = Emitted.argument k ∧ ctx.routines.head? = some r ∧
      r.params[k]? = some (s.name, s.ty) ∧ ctx.Holds (.frame 0 k) s := by
  cases h with
  | moves h =>
    cases h with
    | @load u =>
      have hload : u.cell.loadOp.isStore = true := hstore
      cases hcell : u.cell <;> simp [hcell, Cell.loadOp, Op.isStore] at hload
    | @store u s _ haccesses => exact .inl ⟨u, s, rfl, haccesses⟩
    | @call callee =>
      have hcall : callee.callOp.isStore = true := hstore
      unfold Use.callOp at hcall
      split at hcall <;> cases hcall
    | _ => cases hstore
  | @argument r k s _ hr hparam hcell => exact .inr ⟨r, k, s, rfl, hr, hparam, hcell⟩
  | _ => cases hstore

theorem Context.Accesses.length_scopes {ctx : Context} {u : Use} {s : Symbol}
    (h : ctx.Accesses u s) : u.scopes.scopes.length = ctx.routines.length + 1 := by
  simpa [Context.chain, Context.frames] using h.past.stages.length_eq

/-! ## Blocks of a program -/

/-- The program and its routines, each with its address, its symbols, and the stores that its own
declarations of constants give rise to. -/
inductive Program.Block (p : Program) : Option Nat → Scope → List Use → Prop where
  | program : p.Block none p.globals (p.parts.flatMap Part.initials)
  | routine {e : Nat} {r : Routine} (hentry : p.code[e]? = some r.entry) :
      p.Block (some e) r.frame r.body.initials

/-- The addresses of the stores, with the names. -/
def storePlaces (o : Option Nat) (code : List Emitted) : List (Nat × Use) :=
  (ownCode o [] 0 code).filterMap fun pair => pair.2.constant?.map (pair.1, ·)

theorem map_storePlaces (o : Option Nat) (code : List Emitted) :
    (storePlaces o code).map (·.2) = ownStores o [] 0 code := by
  simp [storePlaces, ownStores, constantStores, List.map_filterMap, List.filterMap_map,
    Function.comp_def]

theorem mem_storePlaces {o : Option Nat} {code : List Emitted} {a : Nat} {u : Use} :
    (a, u) ∈ storePlaces o code ↔ ∃ x, code[a]? = some x ∧ x.constant? = some u ∧
      (entered (leaving [] 0 (code.take a)) a x).head?.map (·.1) = o := by
  simp only [storePlaces, List.mem_filterMap]
  constructor
  · rintro ⟨⟨b, x⟩, hmem, hpair⟩
    obtain ⟨v, hconstant, heq⟩ := Option.map_eq_some_iff.mp hpair
    cases heq
    obtain ⟨k, hk, hx, howner⟩ := mem_ownCode.mp hmem
    obtain rfl : b = k := by omega
    exact ⟨x, hx, hconstant, howner⟩
  · rintro ⟨x, hx, hconstant, howner⟩
    exact ⟨(a, x), mem_ownCode.mpr ⟨a, by omega, hx, howner⟩, by simp [hconstant]⟩

section

variable {initials : List Use} {constants : List Symbol}

theorem map_target_of_sets (h : List.Forall₂ Use.Sets initials constants) :
    initials.map Use.target? = constants.map fun s => some ⟨s, false⟩ := by
  induction h with
  | nil => rfl
  | cons hsets _ ih => rw [List.map_cons, List.map_cons, hsets.target, ih]

theorem exists_sets_of_mem (h : List.Forall₂ Use.Sets initials constants) {u : Use}
    (hu : u ∈ initials) : ∃ s ∈ constants, u.Sets s := by
  induction h with
  | nil => simp at hu
  | cons hsets _ ih =>
    rcases List.mem_cons.mp hu with rfl | hu
    · exact ⟨_, List.mem_cons_self, hsets⟩
    · obtain ⟨s, hs, hsets⟩ := ih hu
      exact ⟨s, List.mem_cons_of_mem _ hs, hsets⟩

/-- If the stores are those of the constants, each constant has one place. -/
theorem exists_place {o : Option Nat} {code : List Emitted}
    (hstores : ownStores o [] 0 code = initials) (h : List.Forall₂ Use.Sets initials constants)
    (hnodup : constants.Nodup) {s : Symbol} (hs : s ∈ constants) :
    ∃ a u, (a, u) ∈ storePlaces o code ∧ u ∈ initials ∧ u.Sets s ∧
      ∀ b v, (b, v) ∈ storePlaces o code → v.target? = some ⟨s, false⟩ → b = a := by
  have htargets : (storePlaces o code).map (fun pair => pair.2.target?) =
      constants.map fun s => some ⟨s, false⟩ := by
    rw [← map_target_of_sets h, ← hstores, ← map_storePlaces, List.map_map]
    rfl
  have hdistinct : ((storePlaces o code).map fun pair => pair.2.target?).Nodup := by
    rw [htargets]
    exact hnodup.map fun s t heq => by simpa using heq
  obtain ⟨⟨a, u⟩, hplace, htarget⟩ : ∃ pair ∈ storePlaces o code,
      pair.2.target? = some ⟨s, false⟩ := by
    have hmem : some ⟨s, false⟩ ∈ (storePlaces o code).map fun pair => pair.2.target? := by
      rw [htargets]
      exact List.mem_map_of_mem hs
    exact List.mem_map.mp hmem
  have hu : u ∈ initials := by
    rw [← hstores, ← map_storePlaces]
    exact List.mem_map_of_mem hplace
  obtain ⟨t, -, hsets⟩ := exists_sets_of_mem h hu
  have hst : t = s := by simpa [hsets.target] using htarget
  refine ⟨a, u, hplace, hu, hst ▸ hsets, ?_⟩
  intro b v hv hvtarget
  exact congrArg Prod.fst (List.inj_on_of_nodup_map hdistinct hv hplace (hvtarget.trans htarget.symm))

end

namespace Program

variable {p : Program} {τ : Nat → List Ty} {o : Option Nat} {scope : Scope} {initials : List Use}

theorem Block.ownStores_eq (htyped : ∀ part ∈ p.parts, part.WellTyped)
    (h : p.Block o scope initials) : ownStores o [] 0 p.code = initials := by
  cases h with
  | program => exact ownStores_partsCode 0 0 htyped
  | @routine e r hentry =>
    have hstands : r.StandsIn e p.code := partsCode_standsIn rfl hentry
    refine hstands.ownStores_eq ?_
    exact holds_of_mem_partsCode (fun part hpart => (htyped part hpart).every)
      (List.mem_of_getElem? hentry) rfl

theorem Block.sets (h : p.Block o scope initials) :
    List.Forall₂ Use.Sets initials scope.constants := by
  obtain ⟨hglobals, hparts⟩ := p.elaborate_initializes
  cases h with
  | program => exact hglobals
  | routine hentry => exact holds_of_mem_partsCode hparts (List.mem_of_getElem? hentry) rfl

theorem Effects.block_laidOut (heffects : p.Effects τ) (h : p.Block o scope initials) :
    ∃ depth, LaidOut depth scope.entries := by
  cases h with
  | program => exact ⟨0, p.globals_laidOut.1⟩
  | @routine e r hentry =>
    obtain ⟨-, hframe, -⟩ := (heffects e r.entry hentry).eq_entry rfl
    exact ⟨_, hframe.laidOut⟩

theorem Effects.entered_eq_owner (heffects : p.Effects τ) {a : Nat} {x : Emitted}
    (hx : p.code[a]? = some x) :
    (entered (leaving [] 0 (p.code.take a)) a x).head?.map (·.1) = owner (erase p.code) a := by
  rw [← List.head?_map, map_fst_enclosing heffects.marked hx]
  rfl

/-- As many routines are around an instruction as there are entries around it. -/
theorem Effects.length_routinesAt (heffects : p.Effects τ) {a : Nat} {x : Emitted}
    (hx : p.code[a]? = some x) : (p.routinesAt a).length = (enclosing (erase p.code) a).length := by
  rw [routinesAt, ← map_snd_enclosing heffects.marked hx, ← map_fst_enclosing heffects.marked hx,
    List.length_map, List.length_map]

/-- What is around an instruction belongs to a block of the program. -/
theorem Effects.exists_block (heffects : p.Effects τ) {a : Nat} {x : Emitted}
    (hx : p.code[a]? = some x) :
    ∃ scope initials, p.Block (owner (erase p.code) a) scope initials := by
  cases howner : owner (erase p.code) a with
  | none => exact ⟨_, _, .program⟩
  | some e =>
    have hlength := heffects.length_routinesAt hx
    have hlevel : (enclosing (erase p.code) a)[0]? = some e := by
      rw [← List.head?_eq_getElem?]
      exact howner
    have hpos : 0 < (p.routinesAt a).length := by
      rw [hlength]
      exact (List.getElem?_eq_some_iff.mp hlevel).1
    obtain ⟨e', he', hentry⟩ := heffects.exists_entry hx (List.getElem?_eq_getElem hpos)
    rw [hlevel] at he'
    cases he'
    exact ⟨_, _, .routine hentry⟩

/-- The declaration of a constant writes the slot of the constant. -/
theorem Effects.storedSlot_of_place (heffects : p.Effects τ) {a : Nat} {u : Use} {s : Symbol}
    (hplace : (a, u) ∈ storePlaces o p.code) (hsets : u.Sets s) :
    p.code[a]? = some (Emitted.store u) ∧ storedSlot (erase p.code) a = s.slot? o := by
  obtain ⟨x, hx, hconstant, howner⟩ := mem_storePlaces.mp hplace
  rw [heffects.entered_eq_owner hx] at howner
  obtain ⟨horigin, hop⟩ := Emitted.constant?_eq_some hconstant
  rcases (heffects a x hx).of_isStore hop with ⟨v, t, rfl, haccesses⟩ | ⟨_, _, _, rfl, -⟩
  · cases horigin
    have hlength := haccesses.length_scopes
    have hrouted : (p.contextAt a).routines.length = (enclosing (erase p.code) a).length :=
      heffects.length_routinesAt hx
    refine ⟨hx, ?_⟩
    rw [storedSlot_eq hx]
    obtain ⟨offset, hoffset, ⟨hone, hcell⟩ | ⟨hmany, hcell⟩⟩ := hsets.cell_cases
    · have hnil : enclosing (erase p.code) a = [] := List.length_eq_zero_iff.mp (by omega)
      have ho : o = none := by rw [← howner, owner, hnil]; rfl
      simp [Emitted.op, Emitted.store, Instruction.plain, hcell, Cell.storeOp, Op.slot?,
        Symbol.slot?, hoffset, ho]
    · obtain ⟨e, outer, hcons⟩ := List.exists_cons_of_length_pos
        (by omega : 0 < (enclosing (erase p.code) a).length)
      have ho : o = some e := by rw [← howner, owner, hcons]; rfl
      simp [Emitted.op, Emitted.store, Instruction.plain, hcell, Cell.storeOp, Op.slot?,
        Symbol.slot?, hoffset, ho, hcons]
  · cases horigin

/-- The symbol that is stored in the slot of a constant is the constant. -/
theorem Effects.eq_of_holds (heffects : p.Effects τ) (hblock : p.Block o scope initials)
    {s t : Symbol} (hs : s ∈ scope.constants) {slot : Slot} (hslot : s.slot? o = some slot)
    {b : Nat} {x : Emitted} (hx : p.code[b]? = some x) {cell : Cell} (hcell : x.op = cell.storeOp)
    (hstored : storedSlot (erase p.code) b = some slot) (hholds : (p.contextAt b).Holds cell t) :
    t = s := by
  obtain ⟨depth, hlaid⟩ := heffects.block_laidOut hblock
  obtain ⟨hmem, hkind⟩ := Scope.mem_constants.mp hs
  have hstorage : s.kind.hasStorage = true := by simp [hkind, SymbolKind.hasStorage]
  obtain ⟨offset, hoffset, hslot⟩ := Option.map_eq_some_iff.mp hslot
  rw [storedSlot_eq hx, hcell] at hstored
  cases hholds with
  | external => cases hstored
  | @slot offset' _ hstores hlt =>
    cases hblock with
    | program =>
      obtain rfl : offset' = offset := by
        simpa [Cell.storeOp, Op.slot?, ← hslot] using hstored
      exact hlaid.eq_of_offset_eq hstores.declared hmem hstores.storage hstorage
        (hstores.offset.trans hoffset.symm)
    | routine hentry => simp [Cell.storeOp, Op.slot?, ← hslot] at hstored
  | @frame level offset' frame _ hlevel hstores hlt =>
    obtain ⟨e, he, heq⟩ := Option.map_eq_some_iff.mp hstored
    cases hblock with
    | program => simp [← hslot] at heq
    | @routine e' r hentry =>
      obtain ⟨rfl, rfl⟩ : e = e' ∧ offset' = offset := by simpa [← hslot] using heq
      have hlevel : ((p.routinesAt b).map (·.frame))[level]? = some frame := hlevel
      rw [List.getElem?_map] at hlevel
      obtain ⟨r', hr', rfl⟩ := Option.map_eq_some_iff.mp hlevel
      obtain ⟨e', he', hentry'⟩ := heffects.exists_entry hx hr'
      obtain rfl : e = e' := Option.some.inj (he.symm.trans he')
      have hroutine : r' = r := by
        have hsame : r'.entry = r.entry := Option.some.inj (hentry'.symm.trans hentry)
        simpa [Routine.entry] using congrArg Emitted.origin hsame
      subst hroutine
      exact hlaid.eq_of_offset_eq hstores.declared hmem hstores.storage hstorage
        (hstores.offset.trans hoffset.symm)

theorem slot?_owner_inj {s : Symbol} {o o' : Option Nat} {slot : Slot} (h : s.slot? o = some slot)
    (h' : s.slot? o' = some slot) : o = o' := by
  obtain ⟨offset, hoffset, rfl⟩ := Option.map_eq_some_iff.mp h
  cases o <;> cases o' <;> simp_all [Symbol.slot?]

/-- Whatever writes the slot of a constant is the store of a declaration in the block of the constant. -/
theorem Effects.place_of_storedSlot (heffects : p.Effects τ)
    (htyped : ∀ part ∈ p.parts, part.WellTyped) (hblock : p.Block o scope initials) {s : Symbol}
    (hs : s ∈ scope.constants) {slot : Slot} (hslot : s.slot? o = some slot) {b : Nat}
    (hstored : storedSlot (erase p.code) b = some slot) :
    ∃ u, (b, u) ∈ storePlaces o p.code ∧ u.target? = some ⟨s, false⟩ := by
  obtain ⟨x, cell, hx, hop⟩ := exists_of_storedSlot hstored
  have hstore : x.op.isStore = true := by
    rw [hop]
    cases cell <;> rfl
  have hkind := (Scope.mem_constants.mp hs).2
  rcases (heffects b x hx).of_isStore hstore with
    ⟨u, t, rfl, haccesses⟩ | ⟨r, k, t, rfl, hr, hparam, hholds⟩
  · obtain rfl := heffects.eq_of_holds hblock hs hslot hx rfl hstored haccesses.cell
    obtain ⟨external, hfinds⟩ := haccesses.denotes
    have htarget : u.target? = some ⟨t, external⟩ := ScopeStack.resolve_eq_some_iff.mpr hfinds
    have hconstant : (Emitted.store u).constant? = some u := by
      simp [constant?_store, htarget, hkind]
    obtain ⟨scope', initials', hblock'⟩ := heffects.exists_block hx
    have hplace : (b, u) ∈ storePlaces (owner (erase p.code) b) p.code :=
      mem_storePlaces.mpr ⟨_, hx, hconstant, heffects.entered_eq_owner hx⟩
    have hu : u ∈ initials' := by
      rw [← hblock'.ownStores_eq htyped, ← map_storePlaces]
      exact List.mem_map_of_mem hplace
    obtain ⟨t', -, hsets⟩ := exists_sets_of_mem hblock'.sets hu
    obtain ⟨rfl, -⟩ : t' = t ∧ external = false := by
      simpa [hsets.target, eq_comm] using htarget
    -- The declaration writes the slot of the constant in its own block, so this is the block.
    have hown := (heffects.storedSlot_of_place hplace hsets).2
    rw [slot?_owner_inj hslot (hown.symm.trans hstored)]
    exact ⟨u, hplace, hsets.target⟩
  · obtain rfl := heffects.eq_of_holds hblock hs hslot hx rfl hstored hholds
    have hlevel : (p.routinesAt b)[0]? = some r := by
      rw [← List.head?_eq_getElem?]
      exact hr
    obtain ⟨e, -, hentry⟩ := heffects.exists_entry hx hlevel
    obtain ⟨-, hframe, -⟩ := (heffects e r.entry hentry).eq_entry rfl
    have hvar := hframe.params k _ _ hparam
    cases hholds with
    | @frame _ _ frame _ hlevel' hstores =>
      have hr' : frame = r.frame := by
        have hframes : ((p.routinesAt b).map (·.frame))[0]? = some frame := hlevel'
        rw [List.getElem?_map, hlevel] at hframes
        exact (Option.some.inj hframes).symm
      subst hr'
      have heq := hframe.laidOut.eq_of_offset_eq hvar hstores.declared rfl hstores.storage
        hstores.offset.symm
      rw [← heq] at hkind
      cases hkind

/-- Every constant of the program is written by one instruction, which its declaration has emitted. -/
structure WritesConstantsOnce (p : Program) : Prop where
  /-- The constants of a block are set by the declarations of the block, one by one. -/
  declared : ∀ o scope initials, p.Block o scope initials →
    List.Forall₂ Use.Sets initials scope.constants
  /-- The store of the declaration is the only instruction that writes the slot. -/
  once : ∀ o scope initials, p.Block o scope initials → ∀ s ∈ scope.constants,
    ∃ u ∈ initials, u.Sets s ∧ ∃ a slot, p.code[a]? = some (Emitted.store u) ∧
      s.slot? o = some slot ∧ ∀ b, storedSlot (erase p.code) b = some slot ↔ b = a

theorem Effects.writesConstantsOnce (heffects : p.Effects τ)
    (htyped : ∀ part ∈ p.parts, part.WellTyped) : p.WritesConstantsOnce where
  declared _ _ _ hblock := hblock.sets
  once o scope initials hblock s hs := by
    obtain ⟨depth, hlaid⟩ := heffects.block_laidOut hblock
    obtain ⟨a, u, hplace, hu, hsets, honly⟩ :=
      exists_place (hblock.ownStores_eq htyped) hblock.sets hlaid.nodup_constants hs
    obtain ⟨hcode, hstored⟩ := heffects.storedSlot_of_place hplace hsets
    obtain ⟨offset, hoffset, -⟩ := hsets.cell_cases
    obtain ⟨slot, hslot⟩ : ∃ slot, s.slot? o = some slot := ⟨_, by rw [Symbol.slot?, hoffset]; rfl⟩
    refine ⟨u, hu, hsets, a, slot, hcode, hslot, fun b => ⟨?_, ?_⟩⟩
    · intro hb
      obtain ⟨v, hv, htarget⟩ := heffects.place_of_storedSlot htyped hblock hs hslot hb
      exact honly b v hv htarget
    · rintro rfl
      rw [hstored, hslot]

end Program

/-- A program that compiles without errors writes each of its constants once, where it is declared. -/
theorem constants_written_once {source file : String} {minDistance : Nat} {c : Compilation}
    (hcompile : compile source file minDistance = .ok c) (hcount : c.errorCount = 0) :
    ∃ p : Program, parse source file = .ok p ∧
      c.listing = header p.globals p.externals ++ erase p.code ∧
      (∀ i ∈ header p.globals p.externals, ∃ d, i = .plain (.directive d)) ∧
      p.WritesConstantsOnce := by
  obtain ⟨p, hparse, hp⟩ := exists_compilesTo hcompile hcount
  obtain ⟨τ, -, heffects⟩ := hp.exists_effects
  refine ⟨p, hparse, hp.listing, ?_, heffects.writesConstantsOnce hp.typed⟩
  intro i hi
  obtain ⟨d, -, rfl⟩ := List.mem_map.mp hi
  exact ⟨d, rfl⟩

/-- Constants of the program and of two procedures, one inside the other. -/
def constantsText : String :=
  "program p \x7b const int c := 1; int t; void f(int n) \x7b const int c := n, int d := c + 2; " ++
    "void g() \x7b const bool c := d < 3; t := c ? d : n; \x7d while (t < d) \x7b const int k := t; " ++
    "t := k + 1; \x7d g(); \x7d \x7d"

theorem constants_written_once_constantsText :
    ∃ c, compile constantsText "sample" 2 = .ok c ∧ c.errorCount = 0 ∧
      ∃ p : Program, parse constantsText "sample" = .ok p ∧
        c.listing = header p.globals p.externals ++ erase p.code ∧
        (∀ i ∈ header p.globals p.externals, ∃ d, i = .plain (.directive d)) ∧
        p.WritesConstantsOnce := by
  have heval : (compile constantsText "sample" 2).toOption.map (·.errorCount) = some 0 := by
    decide +kernel
  cases hcompile : compile constantsText "sample" 2 with
  | error fault => simp [hcompile, Except.toOption] at heval
  | ok c =>
    have hcount : c.errorCount = 0 := by simpa [hcompile, Except.toOption] using heval
    exact ⟨c, rfl, hcount, constants_written_once hcompile hcount⟩

end SlotLang
