import SlotLang.Proofs.Renaming
import SlotLang.Proofs.TokenMaps

/-!
# Renamed tables

A renaming acts on tokens, on everything that is declared, and on code.  Since different texts stay
different, a look-up in a renamed table finds the renamed entry, and a table of renamed entries grows
as the table does.  The parts of composed names are renamed each for itself, so that the elements of a
renamed array and the members of a renamed struct have the renamed names.
-/

namespace SlotLang

open Lowering Aggregate

namespace Renaming

variable (r : Renaming)

/-! ## What is declared -/

def symbol (s : Symbol) : Symbol := { s with name := r.text s.name }

def scope (scope : Scope) : Scope where
  entries := scope.entries.map r.symbol
  slots := scope.slots
  slots_eq := by
    rw [scope.slots_eq, List.countP_map]
    rfl

def scopes (st : ScopeStack) : ScopeStack :=
  ⟨st.scopes.map r.scope, r.scope st.externals, st.openProcedures.map r.text⟩

def resolved (target : Resolved) : Resolved := { target with symbol := r.symbol target.symbol }

def member (m : Member) : Member := { m with path := r.text m.path }

def structDef (d : StructDef) : StructDef := ⟨r.text d.name, d.members.map r.member⟩

def structs (table : StructTable) : StructTable := ⟨table.defs.map r.structDef⟩

def declaredTy : DeclaredTy → DeclaredTy
  | .scalar ty => .scalar ty
  | .struct name => .struct (r.text name)

def arrayKey (key : ArrayKey) : ArrayKey := { key with name := r.text key.name }

def arrays (register : ArrayRegister) : ArrayRegister := ⟨register.declared.map r.arrayKey⟩

def signature (s : Signature) : Signature := { s with name := r.text s.name }

def signatures (table : Signatures) : Signatures :=
  ⟨table.entries.map fun entry => (r.text entry.1, r.signature entry.2)⟩

/-! ## Code -/

def label : Label → Label
  | .fresh number => .fresh number
  | .named text => .named (r.text text)

def address : Address → Address
  | .slot offset => .slot offset
  | .name text => .name (r.text text)

def directive : Directive → Directive
  | .names count => .names count
  | .var ty name => .var ty (r.text name)
  | .proc name => .proc (r.text name)
  | .externalVar ty name => .externalVar ty (r.text name)
  | .externalProc name => .externalProc (r.text name)
  | .externalConst ty name => .externalConst ty (r.text name)

def op : Op → Op
  | .loadGlobal address => .loadGlobal (r.address address)
  | .storeGlobal address => .storeGlobal (r.address address)
  | .call level label => .call level (r.label label)
  | .jump label => .jump (r.label label)
  | .jumpUnless label => .jumpUnless (r.label label)
  | .directive d => .directive (r.directive d)
  | op => op

def instruction (i : Instruction) : Instruction := ⟨i.label.map r.label, r.op i.op⟩

/-! ## Tokens -/

/-- The token with its text renamed if it is a name. -/
def token (t : Token) : Token :=
  if t.kind = .identifier then { t with value := r.name t.value } else t

/-- Numbers are renamed along with names, which does nothing to their digits. -/
def tokenMap : TokenMap where
  token t := if t.kind = .identifier ∨ t.kind = .number then { t with value := r.text t.value } else t
  text t := { t with value := r.text t.value }
  kind_token t := by split <;> rfl
  text_eq t h := (if_pos h).symm

@[simp] theorem start_token (t : Token) : (r.tokenMap.token t).start = t.start := by
  simp only [tokenMap]
  split <;> rfl

@[simp] theorem start_text (t : Token) : (r.tokenMap.text t).start = t.start := rfl

@[simp] theorem value_text (t : Token) : (r.tokenMap.text t).value = r.text t.value := rfl

/-! ## Look-ups -/

theorem lookup_scope (scope : Scope) (name : String) :
    (r.scope scope).lookup (r.text name) = (scope.lookup name).map r.symbol := by
  simp [Scope.lookup, Renaming.scope, symbol, List.find?_map, Function.comp_def]

@[simp] theorem depth_scopes (st : ScopeStack) : (r.scopes st).depth = st.depth := by
  simp [ScopeStack.depth, scopes]

theorem resolve_scopes (st : ScopeStack) (name : String) :
    (r.scopes st).resolve (r.text name) = (st.resolve name).map r.resolved := by
  have hopen : (r.scopes st).scopes.findSome? (fun scope => scope.lookup (r.text name)) =
      (st.scopes.findSome? fun scope => scope.lookup name).map r.symbol := by
    simp [scopes, List.findSome?_map, Function.comp_def, lookup_scope, List.map_findSome?]
  unfold ScopeStack.resolve
  rw [hopen]
  cases st.scopes.findSome? fun scope => scope.lookup name with
  | some s => rfl
  | none =>
    have hexternal := r.lookup_scope st.externals name
    simp only [Option.map_none, scopes, hexternal, Option.map_map]
    rfl

theorem slotCount_scope (scope : Option Scope) :
    ScopeStack.slotCount (scope.map r.scope) = ScopeStack.slotCount scope := by
  cases scope <;> rfl

theorem ensureScope_scopes (st : ScopeStack) :
    (r.scopes st).ensureScope = r.scopes st.ensureScope := by
  obtain ⟨_ | ⟨scope, outer⟩, externals, procedures⟩ := st <;> rfl

theorem pushCurrent_scopes (st : ScopeStack) (s : Symbol) :
    (r.scopes st).pushCurrent (r.symbol s) = r.scopes (st.pushCurrent s) := by
  obtain ⟨_ | ⟨scope, outer⟩, externals, procedures⟩ := st <;> rfl

theorem pushLast_scopes (scopes : List Scope) (s : Symbol) :
    ScopeStack.pushLast (r.symbol s) (scopes.map r.scope) =
      (ScopeStack.pushLast s scopes).map r.scope := by
  induction scopes with
  | nil => rfl
  | cons scope outer ih =>
    cases outer with
    | nil => rfl
    | cons next outer => simp_all [ScopeStack.pushLast]

/-- A declaration declares the renamed symbol. -/
def DeclaresRenamed (f f' : ScopeStack → Symbol × ScopeStack) : Prop :=
  ∀ st, f' (r.scopes st) = (r.symbol (f st).1, r.scopes (f st).2)

theorem declareLocal_renamed (name : String) (kind : SymbolKind) (ty : Ty) :
    r.DeclaresRenamed (fun st => st.declareLocal name kind ty)
      fun st => st.declareLocal (r.text name) kind ty := by
  intro st
  have hslots : ScopeStack.slotCount (r.scopes st.ensureScope).current? =
      ScopeStack.slotCount st.ensureScope.current? := by
    simp [ScopeStack.current?, scopes, List.head?_map, slotCount_scope]
  simp only [ScopeStack.declareLocal, ensureScope_scopes, depth_scopes, hslots,
    ← pushCurrent_scopes]
  rfl

theorem declareGlobal_renamed (name : String) (kind : SymbolKind) (ty : Ty) :
    r.DeclaresRenamed (fun st => st.declareGlobal name kind ty)
      fun st => st.declareGlobal (r.text name) kind ty := by
  intro st
  have hslots : ScopeStack.slotCount (r.scopes st.ensureScope).global? =
      ScopeStack.slotCount st.ensureScope.global? := by
    simp [ScopeStack.global?, scopes, List.getLast?_map, slotCount_scope]
  simp only [ScopeStack.declareGlobal, ensureScope_scopes, hslots]
  simp [scopes, ← pushLast_scopes, symbol]

theorem declareStorage_renamed (name : String) (kind : SymbolKind) (ty : Ty) :
    r.DeclaresRenamed (fun st => st.declareStorage name kind ty)
      fun st => st.declareStorage (r.text name) kind ty := by
  intro st
  simp only [ScopeStack.declareStorage, depth_scopes]
  split
  · exact r.declareGlobal_renamed name kind ty st
  · exact r.declareLocal_renamed name kind ty st

theorem declareProcedure_renamed (name : String) :
    r.DeclaresRenamed (fun st => st.declareProcedure name)
      fun st => st.declareProcedure (r.text name) := by
  intro st
  simp only [ScopeStack.declareProcedure, ensureScope_scopes, depth_scopes, ← pushCurrent_scopes]
  rfl

theorem declareExternal_renamed (name : String) (kind : SymbolKind) (ty : Ty) :
    r.DeclaresRenamed (fun st => st.declareExternal name kind ty)
      fun st => st.declareExternal (r.text name) kind ty := fun _ => rfl

theorem declareAll_scopes (st : ScopeStack) (members : List Member) :
    (r.scopes st).declareAll (members.map r.member) = r.scopes (st.declareAll members) := by
  induction members generalizing st with
  | nil => rfl
  | cons m members ih =>
    have hm := r.declareStorage_renamed m.path m.kind m.ty st
    simp only [ScopeStack.declareAll, List.map_cons, List.foldl_cons] at ih ⊢
    rw [← ih]
    simp only [member] at hm ⊢
    rw [hm]

theorem labelFor_scopes (st : ScopeStack) (name : String) :
    (r.scopes st).labelFor (r.text name) = r.text (st.labelFor name) := by
  simp [ScopeStack.labelFor, text_joinNames, scopes]

theorem labelForCall_scopes (st : ScopeStack) (level : Nat) (name : String) :
    (r.scopes st).labelForCall level (r.text name) = r.text (st.labelForCall level name) := by
  simp [ScopeStack.labelForCall, text_joinNames, scopes]

theorem enterProcedure_scopes (st : ScopeStack) (name : String) :
    (r.scopes st).enterProcedure (r.text name) =
      (r.text (st.enterProcedure name).1, r.scopes (st.enterProcedure name).2) := by
  simp only [ScopeStack.enterProcedure, labelFor_scopes]
  rfl

theorem exitProcedure_scopes (st : ScopeStack) : (r.scopes st).exitProcedure =
    (st.exitProcedure.1.map r.scope, r.scopes st.exitProcedure.2) := by
  simp [ScopeStack.exitProcedure, ScopeStack.closeScope, scopes]

theorem dataLevel_scopes (st : ScopeStack) (s : Symbol) :
    (r.scopes st).dataLevel (r.symbol s) = st.dataLevel s := by
  rw [ScopeStack.dataLevel, depth_scopes]
  rfl

theorem callLevel_scopes (st : ScopeStack) (s : Symbol) :
    (r.scopes st).callLevel (r.symbol s) = st.callLevel s := by
  rw [ScopeStack.callLevel, depth_scopes]
  rfl

theorem callLabel_scopes (st : ScopeStack) (target : Resolved) :
    callLabel (r.scopes st) (r.resolved target) = r.text (callLabel st target) := by
  have hlabel := r.labelForCall_scopes st (st.callLevel target.symbol) target.symbol.name
  simp only [callLabel, resolved, callLevel_scopes]
  split
  · rfl
  · exact hlabel

theorem global?_scopes (st : ScopeStack) : (r.scopes st).global? = st.global?.map r.scope :=
  List.getLast?_map

theorem declaresNothing_scopes (st : ScopeStack) :
    (r.scopes st).declaresNothing = st.declaresNothing := by
  rw [ScopeStack.declaresNothing, ScopeStack.declaresNothing, global?_scopes]
  cases st.global? with
  | none => rfl
  | some scope => simp [Renaming.scope, Scope.isEmpty]

theorem get?_structs (table : StructTable) (name : String) :
    (r.structs table).get? (r.text name) = (table.get? name).map r.structDef := by
  simp [StructTable.get?, structs, structDef, List.find?_map, Function.comp_def]

theorem isDefined_structs (table : StructTable) (name : String) :
    (r.structs table).isDefined (r.text name) = table.isDefined name := by
  simp [StructTable.isDefined, get?_structs]

theorem define_structs (table : StructTable) (d : StructDef) :
    (r.structs table).define (r.structDef d) = r.structs (table.define d) := by
  have hdefined : (r.structs table).isDefined (r.structDef d).name = table.isDefined d.name :=
    r.isDefined_structs table d.name
  by_cases h : table.isDefined d.name = true
  · simp [StructTable.define, hdefined, h]
  · simp only [StructTable.define, hdefined, h]
    rfl

theorem arrayKey_inj {key other : ArrayKey} : r.arrayKey key = r.arrayKey other ↔ key = other := by
  obtain ⟨name, ty, dimensions⟩ := key
  obtain ⟨name', ty', dimensions'⟩ := other
  simp [arrayKey]

theorem contains_arrays (register : ArrayRegister) (key : ArrayKey) :
    (r.arrays register).contains (r.arrayKey key) = register.contains key := by
  simp [ArrayRegister.contains, arrays, List.any_map, Function.comp_def, arrayKey_inj]

theorem insert_arrays (register : ArrayRegister) (key : ArrayKey) :
    (r.arrays register).insert (r.arrayKey key) = r.arrays (register.insert key) := by
  simp only [ArrayRegister.insert, contains_arrays]
  split <;> rfl

theorem get?_signatures (table : Signatures) (label : String) :
    (r.signatures table).get? (r.text label) = (table.get? label).map r.signature := by
  obtain ⟨entries⟩ := table
  induction entries with
  | nil => rfl
  | cons entry entries ih =>
    obtain ⟨other, s⟩ := entry
    simp only [Signatures.get?, signatures, List.map_cons] at ih ⊢
    by_cases hlabel : label = other
    · simp [hlabel]
    · have hlabel' : (r.text label == r.text other) = false := by simpa using hlabel
      have hother : (label == other) = false := by simpa using hlabel
      rw [List.lookup_cons, List.lookup_cons, hlabel', hother, ih]

theorem register_signatures (table : Signatures) (label : String) (s : Signature) :
    (r.signatures table).register (r.text label) (r.signature s) =
      r.signatures (table.register label s) := by
  simp [Signatures.register, signatures, List.filter_map, Function.comp_def]

theorem loadOp_resolved (target : Resolved) (level : Nat) :
    (r.resolved target).loadOp level = r.op (target.loadOp level) := by
  obtain ⟨⟨name, kind, ty, depth, offset⟩, external⟩ := target
  cases external with
  | true => rfl
  | false => cases depth <;> rfl

theorem storeOp_resolved (target : Resolved) (level : Nat) :
    (r.resolved target).storeOp level = r.op (target.storeOp level) := by
  obtain ⟨⟨name, kind, ty, depth, offset⟩, external⟩ := target
  cases external with
  | true => rfl
  | false => cases depth <;> rfl

theorem globalDirective?_symbol (s : Symbol) :
    globalDirective? (r.symbol s) = (globalDirective? s).map r.directive := by
  obtain ⟨name, kind, ty, depth, offset⟩ := s
  cases kind <;> rfl

theorem externalDirective?_symbol (s : Symbol) :
    externalDirective? (r.symbol s) = (externalDirective? s).map r.directive := by
  obtain ⟨name, kind, ty, depth, offset⟩ := s
  cases kind <;> rfl

theorem header_scope (globals externals : Scope) :
    header (r.scope globals) (r.scope externals) = (header globals externals).map r.instruction := by
  have hsymbols : ∀ scope, (r.scope scope).symbols = scope.symbols.map r.symbol := by
    simp [Renaming.scope, Scope.symbols]
  have hsize : ∀ scope, (r.scope scope).size = scope.size := by
    simp [Renaming.scope, Scope.size]
  simp only [header, headerDirectives, hsymbols, hsize, List.filterMap_map, List.map_cons,
    List.map_append, List.map_filterMap, Function.comp_def, globalDirective?_symbol,
    externalDirective?_symbol, Option.map_map]
  rfl

/-! ## Composed names -/

/-- Where the text starts, no word can go on. -/
def StartsApart (s : String) : Prop := ∀ c ∈ s.toList.head?, LexemeRule.isWordPart c = false

theorem startsApart_append {s t : String} (hs : StartsApart s) (ht : StartsApart t) :
    StartsApart (s ++ t) := by
  unfold StartsApart at *
  rw [String.toList_append, List.head?_append]
  cases hhead : s.toList.head? with
  | none => simpa [hhead] using ht
  | some c => simpa [hhead] using hs

theorem startsApart_of_cons {s : String} {c : Char} {rest : List Char} (hs : s.toList = c :: rest)
    (hc : LexemeRule.isWordPart c = false) : StartsApart s := by
  simp [StartsApart, hs, hc]

theorem startsApart_dot (s : String) : StartsApart ("." ++ s) :=
  startsApart_of_cons (by simp; rfl) (c := '.') (by decide)

theorem startsApart_bracket (s : String) : StartsApart ("[" ++ s ++ "]") :=
  startsApart_of_cons (by simp; rfl) (c := '[') (by decide)

theorem startsApart_indexText (i : Index) : StartsApart i.text := by
  unfold Index.text
  split
  · split
    · exact startsApart_bracket _
    · exact startsApart_bracket _
  · simp [StartsApart]

theorem startsApart_indicesText (indices : List Index) :
    StartsApart (Designator.indicesText indices) := by
  unfold Designator.indicesText
  induction indices with
  | nil => simp [StartsApart]
  | cons i indices ih =>
    rw [List.map_cons, String.join_cons]
    exact startsApart_append (startsApart_indexText i) ih

theorem value?_mapText (t : Terminal) : (t.mapText r.tokenMap).value? = t.value?.map r.text := by
  cases t <;> rfl

@[simp] theorem valueD_mapText (t : Terminal) :
    (t.mapText r.tokenMap).valueD = r.text t.valueD := by
  rw [Terminal.valueD, Terminal.valueD, value?_mapText]
  cases t.value? <;> rfl

theorem text_indexText (i : Index) : (i.map r.tokenMap).text = r.text i.text := by
  have hnumber := r.value?_mapText i.number
  simp only [Index.text, Index.map, hnumber]
  cases i.number.value? with
  | none => rfl
  | some value =>
    simp only [Option.map_some, word?_text]
    cases Text.word? value with
    | none => rw [text_brackets]
    | some n => rw [text_brackets, text_toString]

theorem text_indicesText (indices : List Index) :
    Designator.indicesText (indices.map (Index.map r.tokenMap)) =
      r.text (Designator.indicesText indices) := by
  induction indices with
  | nil => rfl
  | cons i indices ih =>
    have hrest := startsApart_indicesText indices
    simp only [Designator.indicesText, List.map_cons, String.join_cons] at ih hrest ⊢
    rw [r.text_append hrest, ih, text_indexText]

theorem membersText?_map (members : List MemberRef) :
    Designator.membersText? (members.map (MemberRef.map r.tokenMap)) =
      (Designator.membersText? members).map r.text ∧
    ∀ text ∈ Designator.membersText? members, StartsApart text := by
  induction members with
  | nil => exact ⟨rfl, by simp [Designator.membersText?, StartsApart]⟩
  | cons member members ih =>
    obtain ⟨ih, hrest⟩ := ih
    have hname := r.value?_mapText member.name
    simp only [List.map_cons, Designator.membersText?, MemberRef.map, hname, ih, text_indicesText]
    cases member.name.value? with
    | none => simp
    | some name =>
      cases hmembers : Designator.membersText? members with
      | none => simp
      | some rest =>
        have hrest := hrest rest hmembers
        have hindices := startsApart_indicesText member.indices
        refine ⟨?_, ?_⟩
        · simp only [Option.map_some, Option.bind_eq_bind, Option.bind_some]
          rw [r.text_append hrest, r.text_append hindices, text_dot]
        · intro text htext
          obtain rfl := Option.some.inj htext
          rw [String.append_assoc, String.append_assoc]
          exact startsApart_dot _

theorem name?_map (d : Designator) : (d.map r.tokenMap).name? = d.name?.map r.text := by
  obtain ⟨hmembers, hapart⟩ := r.membersText?_map d.members
  have hhead := r.value?_mapText d.head
  simp only [Designator.name?, Designator.map, hhead, hmembers, text_indicesText]
  cases d.head.value? with
  | none => rfl
  | some head =>
    cases htext : Designator.membersText? d.members with
    | none => rfl
    | some text =>
      simp only [Option.map_some, Option.bind_eq_bind, Option.bind_some]
      rw [r.text_append (hapart text htext), r.text_append (startsApart_indicesText d.indices)]

theorem text_indexed (base : String) (index : Nat) :
    indexed (r.text base) index = r.text (indexed base index) := by
  have hindexed : ∀ base, indexed base index = base ++ ("[" ++ toString index ++ "]") := by
    simp [indexed, String.append_assoc]
  rw [hindexed, hindexed, r.text_append (startsApart_bracket _), text_brackets, text_toString]

theorem allElements_text (base : String) (bounds : List Nat) :
    allElements (r.text base) bounds = (allElements base bounds).map r.text := by
  induction bounds generalizing base with
  | nil => rfl
  | cons bound bounds ih => simp [allElements, text_indexed, ih, List.map_flatMap]

theorem flatten_text (name : String) (bounds : List Nat) (width : Nat) :
    flatten (r.text name) bounds width = (flatten name bounds width).map (List.map r.text) := by
  by_cases hcount : elementCount bounds ≤ elementLimit
  · simp only [flatten, elements?, hcount, if_true, allElements_text, List.length_map]
    split <;> rfl
  · simp [flatten, elements?, hcount]

theorem under_member (owner : String) (m : Member) :
    (r.member m).under (r.text owner) = r.member (m.under owner) := by
  have hdot := r.text_dot m.path
  simp only [Member.under, member, String.append_assoc]
  rw [r.text_append (startsApart_dot _), hdot]

theorem scalars_text (names : List String) (ty : Ty) :
    ((names.map r.text).map fun name => (⟨name, ty, .var⟩ : Member)) =
      (names.map fun name => ⟨name, ty, .var⟩).map r.member := by
  simp [member]

theorem instanceMembers_structDef (d : StructDef) (owner : String) :
    (r.structDef d).instanceMembers (r.text owner) = (d.instanceMembers owner).map r.member := by
  simp [StructDef.instanceMembers, structDef, under_member]

theorem width_structDef (d : StructDef) : (r.structDef d).members.length = d.members.length :=
  List.length_map _

theorem instances_structDef (d : StructDef) (owners : List String) :
    (owners.map r.text).flatMap (r.structDef d).instanceMembers =
      (owners.flatMap d.instanceMembers).map r.member := by
  simp [List.flatMap_map, List.map_flatMap, instanceMembers_structDef]

end Renaming
end SlotLang
