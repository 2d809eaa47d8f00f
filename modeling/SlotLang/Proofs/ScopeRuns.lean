import SlotLang.Proofs.ScopeGrowth

/-!
# Runs of a stack of scopes

A call composes its label from the procedures that are open around it, while the label of the called
procedure was composed long before, from the procedures that were open around its declaration.  The
two are the same, whatever has been declared, entered and left in between: as long as a declaration
can be seen, the procedures around it are still open, and those opened since lie on top of them.

A symbol does not tell which declaration it comes from.  Two procedures of one name have equal symbols
if they are declared at the same depth, also where one of them is long closed.  So a symbol is followed
by its place, from the move that has put it there.
-/

namespace SlotLang

/-- An operation on a stack of scopes. -/
inductive ScopeMove where
  | openScope
  | closeScope
  | declareLocal (name : String) (kind : SymbolKind) (ty : Ty)
  | declareGlobal (name : String) (kind : SymbolKind) (ty : Ty)
  | declareExternal (name : String) (kind : SymbolKind) (ty : Ty)
  | declareProcedure (name : String)
  | enterProcedure (name : String)
  | exitProcedure
  deriving DecidableEq, Repr

def ScopeMove.apply : ScopeMove → ScopeStack → ScopeStack
  | openScope, st => st.openScope
  | closeScope, st => st.closeScope.2
  | declareLocal name kind ty, st => (st.declareLocal name kind ty).2
  | declareGlobal name kind ty, st => (st.declareGlobal name kind ty).2
  | declareExternal name kind ty, st => (st.declareExternal name kind ty).2
  | declareProcedure name, st => (st.declareProcedure name).2
  | enterProcedure name, st => (st.enterProcedure name).2
  | exitProcedure, st => st.exitProcedure.2

namespace ScopeStack

/-- The stack that the moves lead to. -/
def after (moves : List ScopeMove) : ScopeStack :=
  moves.foldl (fun st move => move.apply st) .empty

@[simp] theorem after_concat (moves : List ScopeMove) (move : ScopeMove) :
    after (moves ++ [move]) = move.apply (after moves) := by
  simp [after]

/-- The symbol at a place: scopes are counted from the outermost one, and the symbols of a scope in
the order of their declarations. -/
def symbolAt? (st : ScopeStack) (level index : Nat) : Option Symbol :=
  st.scopes.reverse[level]?.bind fun scope => scope.symbols[index]?

/-- The place has a symbol of the name, and no other symbol of the name is in a scope further in, or
in the same scope and declared later. -/
structure FoundAt (st : ScopeStack) (name : String) (level index : Nat) : Prop where
  named : ∃ s, st.symbolAt? level index = some s ∧ s.name = name
  latest : ∀ level' index' s, st.symbolAt? level' index' = some s → s.name = name →
    level' < level ∨ level' = level ∧ index' ≤ index

end ScopeStack

open ScopeStack

/-! ## Orderly runs -/

/-- A run opens the scope of the program first.  A procedure is entered as soon as it is declared, only
an open procedure is left, and everything else is a declaration of storage or of an external name. -/
inductive Orderly : List ScopeMove → Prop where
  | start : Orderly [.openScope]
  | declareLocal {moves : List ScopeMove} (h : Orderly moves) (name : String)
      (kind : SymbolKind) (ty : Ty) (hkind : kind.hasStorage = true) :
      Orderly (moves ++ [.declareLocal name kind ty])
  | declareGlobal {moves : List ScopeMove} (h : Orderly moves) (name : String)
      (kind : SymbolKind) (ty : Ty) (hkind : kind.hasStorage = true) :
      Orderly (moves ++ [.declareGlobal name kind ty])
  | declareExternal {moves : List ScopeMove} (h : Orderly moves) (name : String)
      (kind : SymbolKind) (ty : Ty) : Orderly (moves ++ [.declareExternal name kind ty])
  | procedure {moves : List ScopeMove} (h : Orderly moves) (name : String) :
      Orderly (moves ++ [.declareProcedure name] ++ [.enterProcedure name])
  | exit {moves : List ScopeMove} (h : Orderly moves)
      (hopen : (after moves).openProcedures ≠ []) : Orderly (moves ++ [.exitProcedure])

/-- The number of procedures that are open behind a move, if `count` were open before it. -/
def ScopeMove.countOpen : ScopeMove → Nat → Nat
  | enterProcedure _, count => count + 1
  | exitProcedure, count => count - 1
  | _, count => count

/-- The number of procedures that the moves enter and do not leave again. -/
def stillOpen (moves : List ScopeMove) : Nat :=
  moves.foldl (fun count move => move.countOpen count) 0

theorem stillOpen_concat (moves : List ScopeMove) (move : ScopeMove) :
    stillOpen (moves ++ [move]) = move.countOpen (stillOpen moves) := by
  simp [stillOpen]

/-- The symbol was declared behind `before` at a place that was free, and through all moves since it
has stood there. -/
structure StandsSince (before rest : List ScopeMove) (level index : Nat) (s : Symbol) : Prop where
  declared : ((after before).declareProcedure s.name).1 = s
  free : (after before).symbolAt? level index = none
  stands : ∀ passed, passed <+: rest →
    (after (before ++ .declareProcedure s.name :: passed)).symbolAt? level index = some s

/-! ## Places -/

namespace ScopeStack

variable {st st' : ScopeStack} {level index : Nat} {s t : Symbol}

theorem lt_depth_of_symbolAt (h : st.symbolAt? level index = some s) : level < st.depth := by
  obtain ⟨scope, hscope, -⟩ := Option.bind_eq_some_iff.mp h
  have hlt := (List.getElem?_eq_some_iff.mp hscope).1
  rwa [List.length_reverse] at hlt

/-- The second stack has one more symbol, behind the others of the scope at the given level. -/
structure DeclaresAt (st : ScopeStack) (level : Nat) (s : Symbol) (st' : ScopeStack) : Prop where
  scopes : st'.scopes.reverse = st.scopes.reverse.modify level (·.push s)
  openProcedures : st'.openProcedures = st.openProcedures

theorem DeclaresAt.depth_eq (h : st.DeclaresAt level s st') : st'.depth = st.depth := by
  have hlength := congrArg List.length h.scopes
  simpa [depth] using hlength

theorem DeclaresAt.symbolAt {place : Nat} (h : st.DeclaresAt place t st')
    (hs : st'.symbolAt? level index = some s) :
    st.symbolAt? level index = some s ∨
      s = t ∧ level = place ∧ st.symbolAt? level index = none := by
  obtain ⟨scope, hscope, hs⟩ := Option.bind_eq_some_iff.mp hs
  rw [h.scopes, List.getElem?_modify] at hscope
  obtain ⟨old, hold, rfl⟩ := Option.map_eq_some_iff.mp hscope
  by_cases hplace : place = level
  · simp only [hplace, if_true, Scope.symbols_push, List.getElem?_append] at hs
    simp only [symbolAt?, hold, Option.bind_some]
    split at hs
    next hlt => exact .inl hs
    next hge =>
      obtain ⟨-, rfl⟩ := List.getElem?_eq_some_iff.mp hs
      refine .inr ⟨by simp, hplace.symm, ?_⟩
      rw [List.getElem?_eq_none_iff]
      omega
  · simp only [hplace, if_false] at hs
    exact .inl (by simp [symbolAt?, hold, hs])

theorem reverse_cons_push (scope : Scope) (outer : List Scope) (s : Symbol) :
    (scope.push s :: outer).reverse = (scope :: outer).reverse.modify outer.length (·.push s) := by
  refine List.ext_getElem? fun level => ?_
  simp only [List.reverse_cons, List.getElem?_modify, List.getElem?_append, List.length_reverse]
  grind

theorem reverse_pushLast (scopes : List Scope) (s : Symbol) :
    (pushLast s scopes).reverse = scopes.reverse.modify 0 (·.push s) := by
  fun_induction pushLast s scopes with
  | case1 => rfl
  | case2 scope => rfl
  | case3 scope outer hne ih =>
    refine List.ext_getElem? fun level => ?_
    simp only [List.reverse_cons, ih, List.getElem?_modify, List.getElem?_append,
      List.length_modify, List.length_reverse]
    grind

theorem declares_declareLocal (hne : st.scopes ≠ []) (name : String) (kind : SymbolKind) (ty : Ty) :
    ∃ s, s.kind = kind ∧ st.DeclaresAt (st.depth - 1) s (st.declareLocal name kind ty).2 := by
  obtain ⟨_ | ⟨scope, outer⟩, externals, procedures⟩ := st
  · simp at hne
  · rw [declareLocal_cons]
    exact ⟨_, rfl, reverse_cons_push scope outer _, rfl⟩

theorem declares_declareGlobal (hne : st.scopes ≠ []) (name : String) (kind : SymbolKind)
    (ty : Ty) : ∃ s, s.kind = kind ∧ st.DeclaresAt 0 s (st.declareGlobal name kind ty).2 := by
  have hensure : st.ensureScope = st := by simp [ensureScope, hne]
  simp only [declareGlobal, hensure]
  exact ⟨_, rfl, reverse_pushLast st.scopes _, rfl⟩

theorem declares_declareProcedure (hne : st.scopes ≠ []) (name : String) :
    (st.declareProcedure name).1 = ⟨name, .procedure, .undefined, st.depth, none⟩ ∧
      st.DeclaresAt (st.depth - 1) (st.declareProcedure name).1 (st.declareProcedure name).2 := by
  obtain ⟨_ | ⟨scope, outer⟩, externals, procedures⟩ := st
  · simp at hne
  · rw [declareProcedure_cons]
    exact ⟨rfl, reverse_cons_push scope outer _, rfl⟩

/-- A scope that has just been opened has no symbols. -/
theorem symbolAt_enterProcedure (st : ScopeStack) (name : String) (level index : Nat) :
    (st.enterProcedure name).2.symbolAt? level index = st.symbolAt? level index := by
  simp only [symbolAt?, enterProcedure, openScope, List.reverse_cons, List.getElem?_append]
  split
  next hlt => rfl
  next hge =>
    rw [List.getElem?_eq_none (Nat.le_of_not_lt hge)]
    cases hscope : [Scope.empty][level - st.scopes.reverse.length]? with
    | none => rfl
    | some scope =>
      obtain rfl : scope = .empty := by simpa using List.mem_of_getElem? hscope
      rfl

theorem symbolAt_exitProcedure (h : st.exitProcedure.2.symbolAt? level index = some s) :
    st.symbolAt? level index = some s := by
  obtain ⟨scopes, externals, procedures⟩ := st
  cases scopes with
  | nil => exact h
  | cons scope outer =>
    obtain ⟨found, hfound, hs⟩ := Option.bind_eq_some_iff.mp h
    have hfound : outer.reverse[level]? = some found := hfound
    have hlt := (List.getElem?_eq_some_iff.mp hfound).1
    refine Option.bind_eq_some_iff.mpr ⟨found, ?_, hs⟩
    rw [List.reverse_cons, List.getElem?_append_left hlt]
    exact hfound

end ScopeStack

/-! ## What a run keeps -/

theorem ScopeStack.ne_nil_of_depth {st : ScopeStack} {n : Nat} (h : st.depth = n + 1) :
    st.scopes ≠ [] :=
  List.ne_nil_of_length_pos (by rw [← depth, h]; exact Nat.succ_pos n)

/-- Every open procedure has a scope, and so has the program. -/
theorem Orderly.depth_eq {moves : List ScopeMove} (h : Orderly moves) :
    (after moves).depth = (after moves).openProcedures.length + 1 := by
  induction h with
  | start => rfl
  | declareLocal _ name kind ty _ ih =>
    obtain ⟨s, -, hdeclares⟩ := declares_declareLocal (ne_nil_of_depth ih) name kind ty
    rw [after_concat, ScopeMove.apply, hdeclares.depth_eq, hdeclares.openProcedures, ih]
  | declareGlobal _ name kind ty _ ih =>
    obtain ⟨s, -, hdeclares⟩ := declares_declareGlobal (ne_nil_of_depth ih) name kind ty
    rw [after_concat, ScopeMove.apply, hdeclares.depth_eq, hdeclares.openProcedures, ih]
  | declareExternal _ name kind ty ih =>
    rw [after_concat]
    exact ih
  | @procedure moves _ name ih =>
    obtain ⟨-, hdeclares⟩ := declares_declareProcedure (ne_nil_of_depth ih) name
    rw [after_concat, after_concat]
    calc ((after moves).declareProcedure name).2.depth + 1
      _ = (after moves).openProcedures.length + 1 + 1 := by rw [hdeclares.depth_eq, ih]
      _ = (name :: ((after moves).declareProcedure name).2.openProcedures).length + 1 := by
        rw [hdeclares.openProcedures, List.length_cons]
  | @exit moves _ hopen ih =>
    have hpos := List.length_pos_iff.mpr hopen
    rw [after_concat]
    calc (after moves).scopes.tail.length
      _ = (after moves).openProcedures.length + 1 - 1 := by rw [List.length_tail, ← depth, ih]
      _ = (after moves).openProcedures.tail.length + 1 := by rw [List.length_tail]; omega

/-- The symbol at a place comes from the declaration of a procedure.  The procedures that were open
there are still open, below those that were entered since. -/
def Accounted (moves : List ScopeMove) (level index : Nat) (s : Symbol) : Prop :=
  ∃ before rest, moves = before ++ .declareProcedure s.name :: rest ∧
    StandsSince before rest level index s ∧ s.frameDepth = level + 1 ∧
    (after moves).depth = level + 1 + stillOpen rest ∧
    (after before).openProcedures = (after moves).openProcedures.drop (stillOpen rest)

namespace Accounted

variable {moves : List ScopeMove} {level index : Nat} {s : Symbol}

/-- A move after which the symbol is still there leaves it accounted, if the depth and the open procedures
follow the count. -/
theorem concat {move : ScopeMove} (h : Accounted moves level index s)
    (hs : (after (moves ++ [move])).symbolAt? level index = some s)
    (hmove : ∀ count, (after moves).depth = level + 1 + count →
      (after (moves ++ [move])).depth = level + 1 + move.countOpen count ∧
        (after (moves ++ [move])).openProcedures.drop (move.countOpen count) =
          (after moves).openProcedures.drop count) :
    Accounted (moves ++ [move]) level index s := by
  obtain ⟨before, rest, rfl, hstands, hframe, hdepth, hopen⟩ := h
  obtain ⟨hdepth', hopen'⟩ := hmove _ hdepth
  refine ⟨before, rest ++ [move], by simp, ⟨hstands.declared, hstands.free, ?_⟩, hframe, ?_, ?_⟩
  · intro passed hpassed
    rcases List.prefix_concat_iff.mp hpassed with rfl | hpassed
    · simpa using hs
    · exact hstands.stands passed hpassed
  · rw [hdepth', stillOpen_concat]
  · rw [hopen, ← hopen', stillOpen_concat]

theorem declares {move : ScopeMove} {place : Nat} {t : Symbol} (h : Accounted moves level index s)
    (hquiet : ∀ count, move.countOpen count = count)
    (hdeclares : (after moves).DeclaresAt place t (move.apply (after moves)))
    (hs : (after (moves ++ [move])).symbolAt? level index = some s) :
    Accounted (moves ++ [move]) level index s := by
  refine h.concat hs fun count hdepth => ?_
  rw [after_concat, hdeclares.depth_eq, hdeclares.openProcedures, hquiet]
  exact ⟨hdepth, rfl⟩

/-- A procedure is not what a declaration of storage has added. -/
theorem declares_storage {move : ScopeMove} {place : Nat} {t : Symbol}
    (h : (after moves).symbolAt? level index = some s → Accounted moves level index s)
    (hkind : s.kind = .procedure) (ht : t.kind.hasStorage = true)
    (hquiet : ∀ count, move.countOpen count = count)
    (hdeclares : (after moves).DeclaresAt place t (move.apply (after moves)))
    (hs : (after (moves ++ [move])).symbolAt? level index = some s) :
    Accounted (moves ++ [move]) level index s := by
  have hadded := hs
  rw [after_concat] at hadded
  rcases hdeclares.symbolAt hadded with hold | ⟨rfl, -, -⟩
  · exact (h hold).declares hquiet hdeclares hs
  · rw [hkind] at ht
    contradiction

theorem enter (h : Accounted moves level index s) (name : String)
    (hs : (after moves).symbolAt? level index = some s) :
    Accounted (moves ++ [.enterProcedure name]) level index s := by
  have hs' : (after (moves ++ [.enterProcedure name])).symbolAt? level index = some s := by
    rw [after_concat, ScopeMove.apply, symbolAt_enterProcedure, hs]
  refine h.concat hs' fun count hdepth => ?_
  rw [after_concat]
  exact ⟨congrArg (· + 1) hdepth, rfl⟩

theorem exit (h : Accounted moves level index s)
    (hs : (after (moves ++ [.exitProcedure])).symbolAt? level index = some s) :
    Accounted (moves ++ [.exitProcedure]) level index s := by
  refine h.concat hs fun count hdepth => ?_
  have hlt := lt_depth_of_symbolAt hs
  rw [after_concat] at hlt ⊢
  have hdepth' : (ScopeMove.exitProcedure.apply (after moves)).depth = (after moves).depth - 1 :=
    List.length_tail
  -- The scope of the symbol is not the one that is closed, so a procedure was entered since.
  obtain ⟨count, rfl⟩ := Nat.exists_eq_add_one_of_ne_zero (by omega : count ≠ 0)
  refine ⟨by rw [hdepth', hdepth]; rfl, ?_⟩
  calc (after moves).openProcedures.tail.drop count
    _ = (after moves).openProcedures.drop (count + 1) := by rw [List.drop_tail]

/-- A procedure that has just been declared and entered. -/
theorem new {name : String} (hne : (after moves).scopes ≠ [])
    (hs : s = ((after moves).declareProcedure name).1) (hlevel : level = (after moves).depth - 1)
    (hfree : (after moves).symbolAt? level index = none)
    (hdeclared : (after (moves ++ [.declareProcedure name])).symbolAt? level index = some s) :
    Accounted (moves ++ [.declareProcedure name]) level index s := by
  obtain ⟨hsymbol, hdeclares⟩ := declares_declareProcedure hne name
  have hname : s.name = name := by rw [hs, hsymbol]
  have hpos : 0 < (after moves).depth := List.length_pos_iff.mpr hne
  refine ⟨moves, [], by rw [hname], ⟨by rw [hname, hs], hfree, ?_⟩, ?_, ?_, ?_⟩
  · intro passed hpassed
    rw [List.prefix_nil.mp hpassed, hname, hdeclared]
  · rw [hs, hsymbol]
    show (after moves).depth = level + 1
    omega
  · rw [after_concat, ScopeMove.apply, hdeclares.depth_eq]
    show (after moves).depth = level + 1
    omega
  · rw [after_concat]
    exact hdeclares.openProcedures.symm

end Accounted

theorem Orderly.accounted {moves : List ScopeMove} {level index : Nat} {s : Symbol}
    (h : Orderly moves) (hs : (after moves).symbolAt? level index = some s)
    (hkind : s.kind = .procedure) : Accounted moves level index s := by
  induction h with
  | start =>
    obtain ⟨scope, hscope, hs⟩ := Option.bind_eq_some_iff.mp hs
    have hscope : [Scope.empty][level]? = some scope := hscope
    obtain rfl : scope = .empty := by simpa using List.mem_of_getElem? hscope
    simp at hs
  | declareLocal hrun name kind ty hstorage ih =>
    obtain ⟨t, ht, hdeclares⟩ := declares_declareLocal (ne_nil_of_depth hrun.depth_eq) name kind ty
    exact .declares_storage ih hkind (ht ▸ hstorage) (fun _ => rfl) hdeclares hs
  | declareGlobal hrun name kind ty hstorage ih =>
    obtain ⟨t, ht, hdeclares⟩ := declares_declareGlobal (ne_nil_of_depth hrun.depth_eq) name kind ty
    exact .declares_storage ih hkind (ht ▸ hstorage) (fun _ => rfl) hdeclares hs
  | declareExternal _ name kind ty ih =>
    have hold := hs
    rw [after_concat] at hold
    refine (ih hold).concat hs fun count hdepth => ?_
    rw [after_concat]
    exact ⟨hdepth, rfl⟩
  | @procedure moves hrun name ih =>
    have hne := ne_nil_of_depth hrun.depth_eq
    obtain ⟨-, hdeclares⟩ := declares_declareProcedure hne name
    rw [after_concat, ScopeMove.apply, symbolAt_enterProcedure] at hs
    refine Accounted.enter ?_ name hs
    have hdeclared := hs
    rw [after_concat] at hdeclared
    rcases hdeclares.symbolAt hdeclared with hold | ⟨heq, hlevel, hfree⟩
    · exact (ih hold).declares (fun _ => rfl) hdeclares hs
    · exact .new hne heq hlevel hfree hs
  | exit _ _ ih =>
    have hold := hs
    rw [after_concat] at hold
    exact (ih (symbolAt_exitProcedure hold)).exit hs

/-! ## Resolving -/

/-- What stands behind an item of a reversed list stands in front of it in the list. -/
theorem mem_of_getElem?_reverse {α : Type} {nearer outer : List α} {a b : α} {index : Nat}
    (h : (nearer ++ a :: outer).reverse[index]? = some b) (hlt : outer.length < index) :
    b ∈ nearer := by
  have hsplit : (nearer ++ a :: outer).reverse = (a :: outer).reverse ++ nearer.reverse := by simp
  rw [hsplit, List.getElem?_append_right (by simpa using Nat.succ_le_of_lt hlt)] at h
  exact List.mem_reverse.mp (List.mem_of_getElem? h)

theorem Scope.exists_index_of_lookup {scope : Scope} {name : String} {s : Symbol}
    (h : scope.lookup name = some s) :
    s.name = name ∧ ∃ index : Nat, scope.symbols[index]? = some s ∧
      ∀ (index' : Nat) (t : Symbol), scope.symbols[index']? = some t → t.name = name →
        index' ≤ index := by
  obtain ⟨hname, later, older, hentries, hlater⟩ := List.find?_eq_some_iff_append.mp h
  refine ⟨by simpa using hname, older.length, by simp [symbols, hentries], ?_⟩
  intro index' t ht hname'
  by_contra hle
  rw [symbols, hentries] at ht
  have hmem := mem_of_getElem?_reverse ht (Nat.lt_of_not_le hle)
  simpa [hname'] using hlater t hmem

/-- A name that is not external denotes the latest symbol in the innermost scope that has one. -/
theorem ScopeStack.exists_foundAt {st : ScopeStack} {name : String} {s : Symbol}
    (h : st.resolve name = some ⟨s, false⟩) :
    s.name = name ∧ ∃ level index, st.symbolAt? level index = some s ∧
      st.FoundAt name level index := by
  unfold resolve at h
  split at h
  next found hfound =>
    cases h
    obtain ⟨nearer, scope, outer, hscopes, hlookup, hnearer⟩ :=
      List.findSome?_eq_some_iff.mp hfound
    obtain ⟨hname, index, hindex, hlatest⟩ := Scope.exists_index_of_lookup hlookup
    have hplace : st.symbolAt? outer.length index = some s := by
      simp [symbolAt?, hscopes, hindex]
    refine ⟨hname, outer.length, index, hplace, ⟨s, hplace, hname⟩, ?_⟩
    intro level' index' t ht hname'
    obtain ⟨other, hother, hsymbol⟩ := Option.bind_eq_some_iff.mp ht
    rw [hscopes] at hother
    rcases Nat.lt_trichotomy level' outer.length with hlt | rfl | hgt
    · exact .inl hlt
    · have hsame : scope = other := by simpa using hother
      exact .inr ⟨rfl, hlatest index' t (hsame ▸ hsymbol) hname'⟩
    · -- A scope further in has no symbol of the name.
      have hnone := hnearer other (mem_of_getElem?_reverse hother hgt)
      have hmem : t ∈ other.entries := List.mem_reverse.mp (List.mem_of_getElem? hsymbol)
      simpa [hname'] using List.find?_eq_none.mp hnone t hmem
  next =>
    obtain ⟨t, -, heq⟩ := Option.map_eq_some_iff.mp h
    cases heq

/-! ## Labels of calls -/

/-- Whatever an orderly run has declared, entered and left, a call of a procedure names the label that
the procedure was given, and its level counts the procedures that were entered since the declaration
and are still open. -/
theorem call_label_reproduces_declaration {moves : List ScopeMove} {name : String} {s : Symbol}
    (hrun : Orderly moves) (hresolve : (after moves).resolve name = some ⟨s, false⟩)
    (hkind : s.kind = .procedure) :
    ∃ before rest level index, moves = before ++ .declareProcedure name :: rest ∧
      (after moves).FoundAt name level index ∧ StandsSince before rest level index s ∧
      (after moves).labelForCall ((after moves).callLevel s) name = (after before).labelFor name ∧
      (after moves).callLevel s = stillOpen rest := by
  obtain ⟨rfl, level, index, hplace, hfound⟩ := exists_foundAt hresolve
  obtain ⟨before, rest, hmoves, hstands, hframe, hdepth, hopen⟩ := hrun.accounted hplace hkind
  have hlevel : (after moves).callLevel s = stillOpen rest := by
    simp only [callLevel, hframe, hdepth]
    omega
  refine ⟨before, rest, level, index, hmoves, hfound, hstands, ?_, hlevel⟩
  rw [hlevel, labelForCall, labelFor, hopen]

/-- The procedures `r` and `q` of a program have a procedure `foo` each, with equal symbols.  The run
ends inside of `p`, which is next to the second one. -/
def nestedRun : List ScopeMove :=
  [.openScope, .declareProcedure "r", .enterProcedure "r", .declareProcedure "foo",
    .enterProcedure "foo", .exitProcedure, .exitProcedure, .declareProcedure "q",
    .enterProcedure "q", .declareLocal "n" .const .int, .declareProcedure "foo",
    .enterProcedure "foo", .exitProcedure, .declareProcedure "p", .enterProcedure "p"]

theorem nestedRun_orderly : Orderly nestedRun := by
  have hr := (((Orderly.start.procedure "r").procedure "foo").exit (by decide)).exit (by decide)
  have hq := (hr.procedure "q").declareLocal "n" .const .int rfl
  exact ((hq.procedure "foo").exit (by decide)).procedure "p"

theorem call_label_reproduces_declaration_nestedRun :
    Orderly nestedRun ∧
      (after nestedRun).resolve "foo" = some ⟨⟨"foo", .procedure, .undefined, 2, none⟩, false⟩ ∧
      ∃ before rest level index, nestedRun = before ++ .declareProcedure "foo" :: rest ∧
        (after nestedRun).FoundAt "foo" level index ∧
        StandsSince before rest level index ⟨"foo", .procedure, .undefined, 2, none⟩ ∧
        (after nestedRun).labelForCall
            ((after nestedRun).callLevel ⟨"foo", .procedure, .undefined, 2, none⟩) "foo" =
          (after before).labelFor "foo" ∧
        (after nestedRun).callLevel ⟨"foo", .procedure, .undefined, 2, none⟩ = stillOpen rest :=
  ⟨nestedRun_orderly, by decide,
    call_label_reproduces_declaration nestedRun_orderly (by decide) rfl⟩

end SlotLang
