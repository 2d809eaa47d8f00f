import SlotLang.Proofs.ProgramCode
import SlotLang.Proofs.WrittenNames

/-!
# Header and body

The header of a listing is made in the end, from the scope of the program and from the external names,
while the body has come about on the way.  Both are told by the landmarks of the program: outside of
procedures they declare the names of the program's scope, and the code shows where procedures are
entered and where storage is accessed.  So the header and the body of a listing agree, for every text
that can be scanned and whatever is wrong with it.
-/

namespace SlotLang

open Aggregate

/-! ## The scope of the program -/

/-- What is declared, without the place where it is stored. -/
def Symbol.member (s : Symbol) : Member := ⟨s.name, s.ty, s.kind⟩

namespace ScopeStack

/-- What the scope of the program declares. -/
def declared (st : ScopeStack) : List Member := st.globals.symbols.map Symbol.member

variable {st st' : ScopeStack} {added : List Symbol}

/-- Outside of procedures, the innermost scope is the scope of the program. -/
theorem Fit.declared_of_adds (h : st.Fit) (hadds : st.Adds st' added) :
    st'.declared =
      st.declared ++ if st.openProcedures = [] then added.map Symbol.member else [] := by
  obtain ⟨-, -, scope, grown, outer, hscopes, hscopes', hsymbols⟩ := hadds
  have hopened := h.opened
  rw [hscopes, List.length_cons, Nat.add_right_cancel_iff] at hopened
  simp only [declared, globals, global?, hscopes, hscopes']
  cases outer with
  | nil => simp [List.length_eq_zero_iff.mp hopened.symm, hsymbols]
  | cons next outer =>
    have hopen : st.openProcedures ≠ [] := by
      rintro hnone
      simp [hnone] at hopened
    simp [hopen, List.getLast?_cons_cons]

theorem adds_declareLocal (h : st.scopes ≠ []) (name : String) (kind : SymbolKind) (ty : Ty) :
    st.Adds (st.declareLocal name kind ty).2 [(st.declareLocal name kind ty).1] := by
  obtain ⟨_ | ⟨scope, outer⟩, externals, procedures⟩ := st
  · exact absurd rfl h
  · rw [declareLocal_cons]
    exact .pushCurrent h _

theorem adds_declareProcedure (h : st.scopes ≠ []) (name : String) :
    st.Adds (st.declareProcedure name).2 [(st.declareProcedure name).1] := by
  obtain ⟨_ | ⟨scope, outer⟩, externals, procedures⟩ := st
  · exact absurd rfl h
  · rw [declareProcedure_cons]
    exact .pushCurrent h _

/-- The scope of a procedure is inside of the program's. -/
theorem declared_enterProcedure (h : st.scopes ≠ []) (name : String) :
    (st.enterProcedure name).2.declared = st.declared := by
  obtain ⟨scope, outer, hscopes⟩ := List.exists_cons_of_ne_nil h
  simp [declared, globals, global?, enterProcedure, openScope, hscopes, List.getLast?_cons_cons]

theorem declared_exitProcedure (h : st.exitProcedure.2.scopes ≠ []) :
    st.exitProcedure.2.declared = st.declared := by
  obtain ⟨_ | ⟨scope, _ | ⟨next, outer⟩⟩, externals, procedures⟩ := st
  · exact absurd rfl h
  · exact absurd rfl h
  · simp [declared, globals, global?, exitProcedure, closeScope, List.getLast?_cons_cons]

end ScopeStack

/-- A procedure is entered. -/
def Landmark.isEnter : Landmark → Bool
  | .enter _ => true
  | _ => false

/-- The landmark has to do with the innermost scope only. -/
def Landmark.isLocal : Landmark → Bool
  | .enter _ | .leave | .external _ _ _ => false
  | _ => true

namespace Stage

/-- What a landmark adds to the scope that it stands in. -/
def adds (s : Stage) : Landmark → List Member
  | .constant name ty => [⟨name, ty, .const⟩]
  | .declare c => if c.ty.Oversized s.structs c.bounds then [] else c.members s.structs
  | .enter name => [⟨name, .undefined, .procedure⟩]
  | .parameter name ty => [⟨name, ty, .var⟩]
  | _ => []

/-- What a landmark adds to the scope of the program. -/
def addsGlobal (s : Stage) (l : Landmark) : List Member :=
  if s.scopes.openProcedures = [] then s.adds l else []

/-- What landmarks declare outside of procedures, in order. -/
def declared (s : Stage) : List Landmark → List Member
  | [] => []
  | l :: more => s.addsGlobal l ++ (s.step l).declared more

variable {s : Stage}

/-- All that a landmark does to the scopes, unless it opens or closes one or declares an external
name. -/
theorem step_adds (h : s.Fit) {l : Landmark} (hl : l.isLocal = true) :
    ∃ created, s.scopes.Adds (s.step l).scopes created ∧ created.map Symbol.member = s.adds l := by
  have hne := h.scopes.ne_nil
  cases l with
  | constant name ty => exact ScopeStack.declareAll_adds hne [⟨name, ty, .const⟩]
  | declare c =>
    dsimp only [step, adds]
    split
    · exact ⟨[], .refl hne, rfl⟩
    · exact ScopeStack.declareAll_adds hne (c.members s.structs)
  | parameter name ty => exact ⟨_, ScopeStack.adds_declareLocal hne name .var ty, rfl⟩
  | enter name => cases hl
  | leave => cases hl
  | external name kind ty => cases hl
  | _ => exact ⟨[], .refl hne, rfl⟩

theorem declared_step (h : s.Fit) {l : Landmark} (hnext : (s.step l).Fit) :
    (s.step l).scopes.declared = s.scopes.declared ++ s.addsGlobal l := by
  have hne := h.scopes.ne_nil
  have hadds (hl : l.isLocal = true) :
      (s.step l).scopes.declared = s.scopes.declared ++ s.addsGlobal l := by
    obtain ⟨created, hadds, hcreated⟩ := step_adds h hl
    rw [h.scopes.declared_of_adds hadds, hcreated]
    rfl
  cases l with
  | enter name =>
    have hdeclared := ScopeStack.adds_declareProcedure hne name
    rw [step, ScopeStack.declared_enterProcedure hdeclared.ne_nil, h.scopes.declared_of_adds hdeclared]
    rfl
  | leave =>
    rw [step, ScopeStack.declared_exitProcedure hnext.scopes.ne_nil]
    simp [addsGlobal, adds]
  | external name kind ty => simp [step, ScopeStack.declareExternal, ScopeStack.declared,
      ScopeStack.globals, ScopeStack.global?, addsGlobal, adds]
  | _ => exact hadds rfl

/-- The stage is fit at every place of the landmarks, and behind the last one. -/
def FitAlong (s : Stage) (landmarks : List Landmark) : Prop :=
  ∀ front back, landmarks = front ++ back → (s.run front).Fit

variable {l : Landmark} {landmarks : List Landmark}

theorem FitAlong.first (h : s.FitAlong landmarks) : s.Fit := h [] landmarks rfl

theorem FitAlong.next (h : s.FitAlong (l :: landmarks)) : (s.step l).FitAlong landmarks :=
  fun front back heq => h (l :: front) back (congrArg (l :: ·) heq)

/-- In the end, the scope of the program has what was declared outside of procedures. -/
theorem declared_run (h : s.FitAlong landmarks) :
    (s.run landmarks).scopes.declared = s.scopes.declared ++ s.declared landmarks := by
  induction landmarks generalizing s with
  | nil => simp [declared]
  | cons l landmarks ih =>
    rw [run_cons, ih h.next, declared_step h.first h.next.first, declared, List.append_assoc]

end Stage

/-! ## Procedures -/

/-- The text, unless there is a dollar sign in it. -/
def plain? (text : String) : Option String := if '$' ∈ text.toList then none else some text

def Aggregate.Member.procedure? (m : Member) : Option String :=
  if m.kind = .procedure then some m.path else none

/-- The label of an instruction that enters a procedure, if it has a label without a dollar sign. -/
def Instruction.plainLabel? (i : Instruction) : Option String :=
  match i.op with
  | .enter _ => i.label.bind fun label => plain? label.text
  | _ => none

def Mark.plainLabel? : Mark → Option String
  | .entry label => label.bind fun label => plain? label.text
  | _ => none

theorem filterMap_plainLabel? (code : List Instruction) :
    code.filterMap Instruction.plainLabel? = (marks code).filterMap Mark.plainLabel? := by
  rw [marks, List.filterMap_filterMap]
  refine List.filterMap_congr fun i _ => ?_
  obtain ⟨label, op⟩ := i
  cases op <;> rfl

namespace ScopeStack

variable {st : ScopeStack}

/-- The label of a procedure is plain exactly if there is no procedure around it. -/
theorem plain?_labelFor {name : String} (hname : '$' ∉ name.toList) :
    plain? (st.labelFor name) = if st.openProcedures = [] then some name else none := by
  unfold labelFor plain?
  cases hopen : st.openProcedures with
  | nil => simp [joinNames, hname]
  | cons inside procedures =>
    obtain ⟨first, more, hnames⟩ :
        ∃ first more, (inside :: procedures).reverse = first :: more :=
      List.exists_cons_of_ne_nil (by simp)
    rw [hnames, List.cons_append, joinNames, String.intercalate_cons_of_ne_nil (by simp)]
    simp

end ScopeStack

theorem Aggregate.Member.procedure?_eq_none {m : Member} (h : m.kind.hasStorage = true) :
    m.procedure? = none := by
  unfold procedure?
  split
  next hkind =>
    rw [hkind] at h
    cases h
  next => rfl

namespace Stage

variable {s : Stage}

theorem filterMap_plainLabel?_accesses (l : Landmark) :
    ((s.accesses l).map Access.mark).filterMap Mark.plainLabel? = [] := by
  rw [List.filterMap_map, List.filterMap_eq_nil_iff]
  intro a _
  cases a <;> rfl

/-- Everything but a procedure is stored. -/
theorem adds_stored (h : s.Fit) {l : Landmark} (hl : l.isEnter = false) :
    ∀ m ∈ s.adds l, m.kind.hasStorage = true := by
  cases l with
  | constant name ty => simp [adds, SymbolKind.hasStorage]
  | declare c =>
    dsimp only [adds]
    split
    · simp
    · exact c.members_stored h.structs.modest
  | enter name => cases hl
  | parameter name ty => simp [adds, SymbolKind.hasStorage]
  | _ => simp [adds]

/-- A procedure of the program is entered where it is declared, and the code of no other one has a
plain label. -/
theorem plainLabels_marksOf (h : s.Fit) {l : Landmark} (hl : l.Proper) :
    (s.marksOf l).filterMap Mark.plainLabel? = (s.addsGlobal l).filterMap Member.procedure? := by
  have hnothing (hl : l.isEnter = false) :
      (s.addsGlobal l).filterMap Member.procedure? = [] := by
    unfold addsGlobal
    split
    · exact List.filterMap_eq_nil_iff.mpr fun m hm => Member.procedure?_eq_none (adds_stored h hl m hm)
    · rfl
  cases l with
  | enter name =>
    have hlabel := @ScopeStack.plain?_labelFor s.scopes name (IsProcedureName.dollar_not_mem hl)
    simp only [marksOf, addsGlobal, adds, List.filterMap_cons, List.filterMap_nil,
      Mark.plainLabel?, Option.bind_some, Label.text, hlabel]
    by_cases hopen : s.scopes.openProcedures = [] <;> simp [hopen, Member.procedure?]
  | _ => exact (filterMap_plainLabel?_accesses _).trans (hnothing rfl).symm

theorem plainLabels_marks {landmarks : List Landmark} (h : s.FitAlong landmarks)
    (hproper : AllProper landmarks) :
    (s.marks landmarks).filterMap Mark.plainLabel? =
      (s.declared landmarks).filterMap Member.procedure? := by
  induction landmarks generalizing s with
  | nil => rfl
  | cons l landmarks ih =>
    obtain ⟨hl, hmore⟩ := List.forall_mem_cons.mp hproper
    rw [marks, declared, List.filterMap_append, List.filterMap_append,
      plainLabels_marksOf h.first hl, ih h.next hmore]

end Stage

/-! ## External names -/

/-- The directive for an external name. -/
def Landmark.import? : Landmark → Option Directive
  | .external name .var ty => some (.externalVar ty name)
  | .external name .const ty => some (.externalConst ty name)
  | .external name .procedure _ => some (.externalProc name)
  | _ => none

def Directive.isImport : Directive → Bool
  | externalVar _ _ | externalProc _ | externalConst _ _ => true
  | _ => false

theorem Stage.externals_step {s : Stage} (h : s.Fit) {l : Landmark} (hl : l.Proper) :
    (s.step l).scopes.externals.symbols.map externalDirective? =
      s.scopes.externals.symbols.map externalDirective? ++ l.import?.toList.map some := by
  have hadds (hl : l.isLocal = true) : (s.step l).scopes.externals = s.scopes.externals := by
    obtain ⟨created, hadds, -⟩ := step_adds h hl
    exact hadds.externals
  cases l with
  | external name kind ty =>
    cases kind with
    | struct => exact absurd rfl hl
    | _ => simp [step, ScopeStack.declareExternal, Landmark.import?, externalDirective?]
  | enter name =>
    have hdeclared := ScopeStack.adds_declareProcedure h.scopes.ne_nil name
    have hexternals : (s.step (.enter name)).scopes.externals = s.scopes.externals :=
      hdeclared.externals
    rw [hexternals]
    simp [Landmark.import?]
  | leave => simp [step, ScopeStack.exitProcedure, ScopeStack.closeScope, Landmark.import?]
  | _ =>
    rw [hadds rfl]
    simp [Landmark.import?]

/-- External names are declared in the order in which they are written. -/
theorem Stage.externals_run {s : Stage} {landmarks : List Landmark} (h : s.FitAlong landmarks)
    (hproper : AllProper landmarks) :
    (s.run landmarks).scopes.externals.symbols.map externalDirective? =
      s.scopes.externals.symbols.map externalDirective? ++
        (landmarks.filterMap Landmark.import?).map some := by
  induction landmarks generalizing s with
  | nil => simp
  | cons l landmarks ih =>
    obtain ⟨hl, hmore⟩ := List.forall_mem_cons.mp hproper
    rw [run_cons, ih h.next hmore, externals_step h.first hl, List.append_assoc, ← List.map_append]
    cases himport : l.import? <;> simp [himport]

/-! ## Slots of the program -/

/-- The constants and variables of a scope, in the order of their declarations. -/
def Scope.stored (scope : Scope) : List Symbol := scope.symbols.filter (·.kind.hasStorage)

theorem LaidOut.offsets {depth : Nat} {scope : Scope} (h : LaidOut depth scope.entries) :
    scope.stored.map (·.offset) = (List.range scope.stored.length).map some := by
  unfold Scope.stored Scope.symbols
  generalize scope.entries = entries at h
  induction entries with
  | nil => rfl
  | cons s entries ih =>
    rw [List.reverse_cons, List.filter_append, List.map_append, ih h.2, List.length_append]
    by_cases hstorage : s.kind.hasStorage = true
    · have hoffset := (h.1 hstorage).2
      rw [List.countP_eq_length_filter, ← List.length_reverse, ← List.filter_reverse] at hoffset
      simp [hstorage, hoffset, List.range_succ]
    · simp [hstorage]

/-- The slots are numbered in the order of the declarations. -/
theorem LaidOut.offset_eq_iff {depth : Nat} {scope : Scope} (h : LaidOut depth scope.entries)
    {s : Symbol} {k : Nat} : scope.stored[k]? = some s ↔ s ∈ scope.stored ∧ s.offset = some k := by
  have hoffsets (i : Nat) : scope.stored[i]?.map (·.offset) =
      (List.range scope.stored.length)[i]?.map some := by
    rw [← List.getElem?_map, ← List.getElem?_map, h.offsets]
  constructor
  · intro hs
    have hlt := (List.getElem?_eq_some_iff.mp hs).1
    have hoffset := hoffsets k
    rw [hs, List.getElem?_range hlt] at hoffset
    exact ⟨List.mem_of_getElem? hs, Option.some.inj hoffset⟩
  · rintro ⟨hs, hoffset⟩
    obtain ⟨i, hi⟩ := List.mem_iff_getElem?.mp hs
    have hlt := (List.getElem?_eq_some_iff.mp hi).1
    have hsame := hoffsets i
    rw [hi, List.getElem?_range hlt, Option.map_some, Option.map_some, hoffset] at hsame
    cases hsame
    exact hi

namespace ScopeStack

variable {st final : ScopeStack}

theorem Fit.globals_laidOut (h : st.Fit) : LaidOut 0 st.globals.entries := by
  have hlast : st.scopes[st.scopes.length - 1]? = some st.globals := by
    rw [← List.getLast?_eq_getElem?]
    simp [globals, global?, List.getLast?_eq_some_getLast h.ne_nil]
  have hlaid := h.laidOut.get hlast
  rwa [Nat.sub_self] at hlaid

/-- A symbol at depth zero is one of the program's. -/
theorem Fit.mem_globals (h : st.Fit) {scope : Scope} {s : Symbol} (hscope : scope ∈ st.scopes)
    (hs : s ∈ scope.entries) (hdepth : s.frameDepth = 0) :
    s.kind.hasStorage = true ∧ s ∈ st.globals.entries := by
  have hstorage := h.placed scope hscope s hs hdepth
  refine ⟨hstorage, ?_⟩
  obtain ⟨i, hi⟩ := List.mem_iff_getElem?.mp hscope
  have hframe := (h.laidOut.get hi).frameDepth hs hstorage
  have hlt := (List.getElem?_eq_some_iff.mp hi).1
  have hlast : i = st.scopes.length - 1 := by omega
  rw [hlast, ← List.getLast?_eq_getElem?] at hi
  simpa [globals, global?, hi] using hs

end ScopeStack

/-- A use of a name accesses a slot of the program exactly if the name denotes the constant or
variable that has this slot in the end. -/
theorem Use.cell_eq_slot_iff {u : Use} {final : ScopeStack} (h : u.scopes.Fit)
    (hleads : u.scopes.Leads final) (hfinal : final.Fit) {n : Nat} :
    u.cell = .global (.slot n) ↔
      ∃ k s, n = k + reservedSlots ∧ final.globals.stored[k]? = some s ∧
        u.target? = some ⟨s, false⟩ := by
  have hlaid := hfinal.globals_laidOut
  constructor
  · intro hcell
    unfold Use.cell at hcell
    split at hcell
    next target htarget =>
      obtain ⟨s, external⟩ := target
      cases external with
      | true => simp [Resolved.cell, Resolved.storage] at hcell
      | false =>
        by_cases hglobal : s.isGlobal = true
        · have hslot : s.offset.getD 0 + reservedSlots = n := by
            simpa [Resolved.cell, Resolved.storage, hglobal] using hcell
          have hdepth : s.frameDepth = 0 := by simpa [Symbol.isGlobal] using hglobal
          cases ScopeStack.resolve_eq_some_iff.mp htarget with
          | declared hscopes _ hlatest =>
            obtain ⟨hstorage, hmem⟩ := h.mem_globals (by simp [hscopes]) hlatest.mem hdepth
            have hmem := hleads.globals.mem hmem
            obtain ⟨k, hoffset, -⟩ := hlaid.offset_lt hmem hstorage
            have hstored : s ∈ final.globals.stored :=
              List.mem_filter.mpr ⟨List.mem_reverse.mpr hmem, hstorage⟩
            refine ⟨k, s, ?_, hlaid.offset_eq_iff.mpr ⟨hstored, hoffset⟩, htarget⟩
            rw [← hslot, hoffset]
            rfl
        · simp [Resolved.cell, Resolved.storage, hglobal] at hcell
    next => cases hcell
  · rintro ⟨k, s, rfl, hs, htarget⟩
    obtain ⟨hmem, hoffset⟩ := hlaid.offset_eq_iff.mp hs
    obtain ⟨hmem, hstorage⟩ := List.mem_filter.mp hmem
    have hdepth := hlaid.frameDepth (List.mem_reverse.mp hmem) hstorage
    simp [Use.cell, htarget, Resolved.cell, Resolved.storage, Symbol.isGlobal, hdepth, hoffset]

/-! ## Accesses of a program -/

/-- The name that is accessed, with the scopes that are open. -/
def Access.use? : Access → Option Use
  | load u | store u => some u
  | argument _ => none

/-- The program makes the access at one of its places. -/
def Program.Accesses (p : Program) (a : Access) : Prop :=
  ∃ front l back, p.landmarks = front ++ l :: back ∧ a ∈ (Stage.start.run front).accesses l

theorem Stage.Fit.accesses_madeBefore {s : Stage} (h : s.Fit) (l : Landmark) :
    ∀ a ∈ s.accesses l, a.MadeBefore s.scopes := by
  intro a ha
  cases l with
  | refer r => exact r.accesses_madeBefore h.scopes a ha
  | argument k =>
    obtain rfl := List.mem_singleton.mp ha
    trivial
  | again =>
    cases hsubjects : s.subjects with
    | nil => simp [accesses, hsubjects] at ha
    | cons subject subjects =>
      simp only [accesses, hsubjects, List.headD_cons] at ha
      exact h.subjects subject (by simp [hsubjects]) a ha
  | _ => simp [accesses] at ha

theorem Program.Accesses.madeBefore {p : Program} {a : Access} (h : p.Accesses a) :
    a.MadeBefore (Stage.start.run p.landmarks).scopes := by
  obtain ⟨front, l, back, hplace, ha⟩ := h
  have hway := p.onTheWay hplace
  exact (hway.fit.accesses_madeBefore l a ha).later hway.leads

theorem Stage.exists_of_mem_marks {s : Stage} {landmarks : List Landmark} {m : Mark}
    (h : m ∈ s.marks landmarks) :
    ∃ front l back, landmarks = front ++ l :: back ∧ m ∈ (s.run front).marksOf l := by
  induction landmarks generalizing s with
  | nil => simp [marks] at h
  | cons l landmarks ih =>
    rcases List.mem_append.mp h with h | h
    · exact ⟨[], l, landmarks, rfl, h⟩
    · obtain ⟨front, next, back, rfl, hm⟩ := ih h
      exact ⟨l :: front, next, back, rfl, hm⟩

/-- What the code shows of a landmark is an entry or an access that the landmark stands for. -/
theorem Stage.marksOf_cases {s : Stage} {l : Landmark} {m : Mark} (h : m ∈ s.marksOf l) :
    (∃ label, m = .entry label) ∨ ∃ a ∈ s.accesses l, m = a.mark := by
  cases l with
  | enter name => exact .inl ⟨_, List.mem_singleton.mp h⟩
  | _ =>
    obtain ⟨a, ha, rfl⟩ := List.mem_map.mp h
    exact .inr ⟨a, ha, rfl⟩

/-! ## Listings -/

/-- What is declared outside of procedures, in the order of the text. -/
def Program.declared (p : Program) : List Member := Stage.start.declared p.landmarks

/-- The directives for the external names, in the order of the text. -/
def Program.imports (p : Program) : List Directive := p.landmarks.filterMap Landmark.import?

/-- The directive for a name of the program.  There is none for constants. -/
def Aggregate.Member.directive? (m : Member) : Option Directive :=
  match m.kind with
  | .var => some (.var m.ty m.path)
  | .procedure => some (.proc m.path)
  | .const | .struct => none

def Aggregate.Member.variable? (m : Member) : Option (Ty × String) :=
  if m.kind = .var then some (m.ty, m.path) else none

def Directive.variable? : Directive → Option (Ty × String)
  | var ty name => some (ty, name)
  | _ => none

def Directive.procedure? : Directive → Option String
  | proc name => some name
  | _ => none

/-- The directives and the body agree with the program, which has the scope `globals` in the end. -/
structure Program.Listed (p : Program) (directives : List Directive) (globals : Scope)
    (body : List Instruction) : Prop where
  /-- The scope has what is declared outside of procedures. -/
  scope : globals.symbols.map Symbol.member = p.declared
  /-- The names are counted first, those of the program and those that are external, and then there
  are no directives but those for the names. -/
  header : directives = .names (p.declared.length + p.imports.length) ::
    (p.declared.filterMap Member.directive? ++ p.imports)
  vars : directives.filterMap Directive.variable? = p.declared.filterMap Member.variable?
  /-- The procedures of the program are those that the body enters with a plain label. -/
  procedures : directives.filterMap Directive.procedure? = body.filterMap Instruction.plainLabel?
  imports : directives.filter Directive.isImport = p.imports
  plain : ∀ i ∈ body, ∀ d, i.op ≠ .directive d
  /-- An instruction that accesses storage does it for a name or for an argument. -/
  accessed : ∀ i ∈ body, i.op.cell?.isSome = true → ∃ a, p.Accesses a ∧ a.instruction = i
  /-- The constants and variables have the slots behind the reserved ones, in the order of their
  declarations. -/
  slots : ∀ (a : Access) (u : Use), p.Accesses a → a.use? = some u → ∀ n,
    u.cell = .global (.slot n) ↔
      ∃ k s, n = k + 3 ∧ globals.stored[k]? = some s ∧ u.target? = some ⟨s, false⟩
  /-- What is loaded has the declared type, and what is stored must have it. -/
  types : ∀ s ∈ globals.stored, ∀ (env : Env) (d : Designator),
    d.target? env.scopes = some ⟨s, false⟩ → ((Expr.designator d).lower env).value = s.ty ∧
      ∀ ty, Faultless (storeChecked (some ⟨s, false⟩) ty env).events ↔ ty = s.ty

theorem Program.isImport_of_mem_imports {p : Program} {d : Directive} (h : d ∈ p.imports) :
    d.isImport = true := by
  obtain ⟨l, -, hl⟩ := List.mem_filterMap.mp h
  unfold Landmark.import? at hl
  split at hl <;> cases hl <;> rfl

theorem Expr.designator_value {d : Designator} {env : Env} {target : Resolved}
    (h : d.target? env.scopes = some target) :
    ((Expr.designator d).lower env).value = target.symbol.ty := by
  have htarget := d.lowerTarget_value env
  rw [h] at htarget
  rw [Expr.lower, lowerDesignator, Lowering.bind_apply, htarget]
  dsimp only
  unfold Typing.loadable
  by_cases hstorage : target.symbol.kind.hasStorage = true
  · rw [if_pos hstorage]
    rfl
  · rw [if_neg hstorage]
    rfl

theorem faultless_storeChecked_iff (target : Resolved) (ty : Ty) (env : Env) :
    Faultless (storeChecked (some target) ty env).events ↔ ty = target.symbol.ty := by
  by_cases hty : target.symbol.ty = ty
  · have hrule : Typing.assignment target.symbol.ty ty = .ok () := by
      simp [Typing.assignment, Typing.require, hty]
    rw [storeChecked, hrule]
    exact iff_of_true faultless_nil hty.symm
  · have hrule : Typing.assignment target.symbol.ty ty = .error .incompatibleTypes := by
      simp [Typing.assignment, Typing.require, hty]
    rw [storeChecked, hrule]
    refine iff_of_false (fun hfaultless => ?_) (Ne.symm hty)
    have hfault := hfaultless (.fault ⟨.incompatibleTypes, env.last.start⟩) List.mem_cons_self
    cases hfault

theorem Program.fitAlong (p : Program) : Stage.start.FitAlong p.landmarks :=
  fun _ _ h => (p.onTheWay h).fit

/-- The header lists the names of the program and the external names. -/
theorem Program.headerDirectives_eq {p : Program} (hproper : AllProper p.landmarks) {final : ScopeStack}
    (hfinal : (Stage.start.run p.landmarks).scopes = final) :
    final.globals.symbols.map Symbol.member = p.declared ∧
    headerDirectives final.globals final.externals =
      .names (p.declared.length + p.imports.length) ::
        (p.declared.filterMap Member.directive? ++ p.imports) := by
  subst hfinal
  generalize hfinal : Stage.start.run p.landmarks = final
  have hglobals : final.scopes.globals.symbols.map Symbol.member = p.declared :=
    hfinal ▸ Stage.declared_run p.fitAlong
  have hexternals : final.scopes.externals.symbols.map externalDirective? = p.imports.map some :=
    hfinal ▸ Stage.externals_run p.fitAlong hproper
  have hsize : final.scopes.globals.size = p.declared.length := by
    rw [← hglobals, List.length_map, Scope.symbols, List.length_reverse]
    rfl
  have hsize' : final.scopes.externals.size = p.imports.length := by
    have hlength := congrArg List.length hexternals
    rwa [List.length_map, List.length_map, Scope.symbols, List.length_reverse] at hlength
  have hdirectives : final.scopes.globals.symbols.filterMap globalDirective? =
      p.declared.filterMap Member.directive? := by
    rw [← hglobals, List.filterMap_map]
    rfl
  have himports : final.scopes.externals.symbols.filterMap externalDirective? = p.imports := by
    simpa [List.filterMap_map] using congrArg (List.filterMap id) hexternals
  rw [headerDirectives, hsize, hsize', hdirectives, himports]
  exact ⟨hglobals, rfl⟩

/-- What is selected from the directives of a header, apart from the external names. -/
theorem Program.filterMap_header {β : Type} {p : Program} {select : Directive → Option β} {n : Nat}
    (hnames : select (.names n) = none) (himport : ∀ d, d.isImport = true → select d = none) :
    (Directive.names n :: (p.declared.filterMap Member.directive? ++ p.imports)).filterMap select =
      p.declared.filterMap fun m => m.directive?.bind select := by
  have himports : p.imports.filterMap select = [] :=
    List.filterMap_eq_nil_iff.mpr fun d hd => himport d (isImport_of_mem_imports hd)
  rw [List.filterMap_cons_none hnames, List.filterMap_append, himports, List.append_nil,
    List.filterMap_filterMap]

theorem Program.filter_isImport_header (p : Program) (n : Nat) :
    (Directive.names n :: (p.declared.filterMap Member.directive? ++ p.imports)).filter
      Directive.isImport = p.imports := by
  have hown : ∀ d ∈ p.declared.filterMap Member.directive?, ¬ d.isImport = true := by
    intro d hd
    obtain ⟨m, -, hm⟩ := List.mem_filterMap.mp hd
    unfold Member.directive? at hm
    split at hm <;> cases hm <;> simp [Directive.isImport]
  have himports : p.imports.filter Directive.isImport = p.imports :=
    List.filter_eq_self.mpr fun d hd => isImport_of_mem_imports hd
  rw [List.filter_cons_of_neg (by simp [Directive.isImport]), List.filter_append,
    List.filter_eq_nil_iff.mpr hown, himports, List.nil_append]

/-- Whatever code has the accesses and entries of the program goes with its header. -/
theorem Program.listed {p : Program} (hproper : AllProper p.landmarks) {final : ScopeStack}
    (hfinal : (Stage.start.run p.landmarks).scopes = final) {body : List Instruction}
    (hbody : marks body = Stage.start.marks p.landmarks) :
    p.Listed (headerDirectives final.globals final.externals) final.globals body := by
  obtain ⟨hscope, hheader⟩ := headerDirectives_eq hproper hfinal
  have hmark {i : Instruction} {m : Mark} (hi : i ∈ body) (hm : i.mark? = some m) :
      ∃ front l back, p.landmarks = front ++ l :: back ∧
        ((∃ label, m = .entry label) ∨ ∃ a ∈ (Stage.start.run front).accesses l, m = a.mark) := by
    have hmem : m ∈ marks body := List.mem_filterMap.mpr ⟨i, hi, hm⟩
    rw [hbody] at hmem
    obtain ⟨front, l, back, hplace, hm⟩ := Stage.exists_of_mem_marks hmem
    exact ⟨front, l, back, hplace, Stage.marksOf_cases hm⟩
  have hfit : final.Fit := hfinal ▸ (p.fitAlong p.landmarks [] (by simp)).scopes
  refine ⟨hscope, hheader, ?_, ?_, ?_, ?_, ?_, ?_, ?_⟩
  · rw [hheader, filterMap_header rfl fun d hd => by cases d <;> first | rfl | cases hd]
    refine List.filterMap_congr fun m _ => ?_
    unfold Member.directive? Member.variable?
    cases m.kind <;> rfl
  · rw [filterMap_plainLabel?, hbody, Stage.plainLabels_marks p.fitAlong hproper, hheader,
      filterMap_header rfl fun d hd => by cases d <;> first | rfl | cases hd]
    refine List.filterMap_congr fun m _ => ?_
    unfold Member.directive? Member.procedure?
    cases m.kind <;> rfl
  · rw [hheader, filter_isImport_header]
  · intro i hi d hop
    obtain ⟨front, l, back, -, ⟨label, hm⟩ | ⟨a, -, hm⟩⟩ :=
      hmark hi (show i.mark? = some (.directive d) by simp [Instruction.mark?, hop])
    · cases hm
    · cases hm
  · intro i hi hcell
    have hmark? : i.mark? = some (.access i) := by
      obtain ⟨label, op⟩ := i
      cases op <;> first | rfl | cases hcell
    obtain ⟨front, l, back, hplace, ⟨label, hm⟩ | ⟨a, ha, hm⟩⟩ := hmark hi hmark?
    · cases hm
    · exact ⟨a, ⟨front, l, back, hplace, ha⟩, (Mark.access.inj hm).symm⟩
  · intro a u ha hu n
    have hbefore := hfinal ▸ ha.madeBefore
    cases a with
    | load v =>
      cases hu
      exact Use.cell_eq_slot_iff hbefore.1 hbefore.2 hfit
    | store v =>
      cases hu
      exact Use.cell_eq_slot_iff hbefore.1 hbefore.2 hfit
    | argument k => cases hu
  · intro s _ env d htarget
    exact ⟨Expr.designator_value htarget, fun ty => faultless_storeChecked_iff _ ty env⟩

theorem compileWindow_listed {w : Window} {p : Program} (hp : (w.readProgram .full w.budget).1 = p)
    (hproper : AllProper p.landmarks) (minDistance : Nat) :
    ∃ (directives : List Directive) (globals : Scope) (body : List Instruction),
      (compileWindow w minDistance).listing =
        directives.map (fun d => .plain (.directive d)) ++ body ∧
      p.Listed directives globals body := by
  have hvisits : w.outcome.Visits .start p.landmarks := hp ▸ Program.lower_visits _ w.ahead
  rw [compileWindow_eq]
  generalize w.outcome = o at hvisits ⊢
  have hfinal : (Stage.start.run p.landmarks).scopes = o.env.scopes :=
    (congrArg Stage.scopes hvisits.stage).symm
  exact ⟨_, _, _, rfl, Program.listed hproper hfinal hvisits.marks⟩

/-- The listing of every text that can be scanned is a header and a body that agree, whatever errors
there are. -/
theorem header_agrees_with_body {source file : String} {tokens : List Token}
    (hscan : scan source file = .ok tokens) (minDistance : Nat) :
    ∃ (c : Compilation) (p : Program) (directives : List Directive) (globals : Scope)
      (body : List Instruction),
      compile source file minDistance = .ok c ∧ parse source file = .ok p ∧
      c.listing = directives.map (fun d => .plain (.directive d)) ++ body ∧
      p.Listed directives globals body := by
  have hcompile : compile source file minDistance = .ok (compileTokens tokens file minDistance) := by
    unfold compile
    rw [hscan]
    rfl
  have hparse : parse source file = .ok ((Window.ofTokens tokens file).readProgram .full
      (Window.ofTokens tokens file).budget).1 := by
    unfold parse
    rw [hscan]
    rfl
  obtain ⟨directives, globals, body, hlisting, hlisted⟩ :=
    compileWindow_listed rfl (scan_landmarks_proper hscan _) minDistance
  exact ⟨_, _, directives, globals, body, hcompile, hparse, hlisting, hlisted⟩

/-- A text with four errors: a procedure has no name, and inside of it a constant is assigned a value
of another type. -/
def unnamedText : String :=
  "program p \x7b external int e; const int c := 1; bool a[1]; " ++
    "void () \x7b void g() \x7b c := true; \x7d \x7d void f() \x7b a[1] := e; \x7d " ++
    "external procedure e(int); \x7d"

/-- The name that is missing is counted and declared, and it labels the code of its procedure. -/
theorem header_agrees_with_body_unnamed :
    (∃ tokens, scan unnamedText "sample" = .ok tokens) ∧
    ∃ (c : Compilation) (p : Program) (directives : List Directive) (globals : Scope)
      (body : List Instruction),
      compile unnamedText "sample" 2 = .ok c ∧ c.errorCount = 4 ∧
      parse unnamedText "sample" = .ok p ∧
      c.listing = directives.map (fun d => .plain (.directive d)) ++ body ∧
      p.Listed directives globals body ∧
      directives = [.names 7, .var .bool "a[0]", .var .bool "a[1]", .proc "", .proc "f",
        .externalVar .int "e", .externalProc "e"] ∧
      body.filterMap Instruction.plainLabel? = ["", "f"] := by
  have heval : ((compile unnamedText "sample" 2).toOption.bind fun c =>
      (parse unnamedText "sample").toOption.map fun p => (c.errorCount, p.declared, p.imports)) =
      some (4, [⟨"c", .int, .const⟩, ⟨"a[0]", .bool, .var⟩, ⟨"a[1]", .bool, .var⟩,
        ⟨"", .undefined, .procedure⟩, ⟨"f", .undefined, .procedure⟩],
        [.externalVar .int "e", .externalProc "e"]) := by decide +kernel
  cases hfirst : compile unnamedText "sample" 2 with
  | error fault => simp [hfirst, Except.toOption] at heval
  | ok result =>
    obtain ⟨tokens, hscan, -⟩ := exists_tokens_of_compile hfirst
    obtain ⟨c, p, directives, globals, body, hcompile, hparse, hlisting, hlisted⟩ :=
      header_agrees_with_body hscan 2
    rw [hcompile, hparse] at heval
    obtain ⟨hcount, hmembers⟩ := Prod.mk.inj (Option.some.inj heval)
    obtain ⟨hdeclared, himports⟩ := Prod.mk.inj hmembers
    have hdirectives := hlisted.header
    rw [hdeclared, himports] at hdirectives
    refine ⟨⟨tokens, hscan⟩, c, p, directives, globals, body, hfirst ▸ hcompile, hcount, hparse,
      hlisting, hlisted, hdirectives, ?_⟩
    rw [← hlisted.procedures, hdirectives]
    rfl

end SlotLang
