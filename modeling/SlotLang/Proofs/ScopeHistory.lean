import Mathlib.Data.List.Induction
import SlotLang.Proofs.Cells
import SlotLang.Proofs.ScopeRuns

/-!
# What a stack of scopes has been through

Nothing forces the moves of a stack of scopes to be orderly.  A scope may be closed that was never
opened, a symbol may be declared where no scope is open, the scope of the program may grow while
procedures are open, and a kind without storage may be declared as if it had some.  Even so every symbol
has its place: the offset counts the storage declared before it in its scope, and the frame depth is
the level of the scope, or one more for a procedure.  So the distance from a symbol is the number of
scopes inside of its own, and a name denotes what was declared last.
-/

namespace SlotLang

open ScopeStack

/-! ## Declarations -/

/-- The symbol that a move adds to one of the open scopes. -/
def ScopeMove.declared? : ScopeMove → ScopeStack → Option Symbol
  | declareLocal name kind ty, st => some (st.declareLocal name kind ty).1
  | declareGlobal name kind ty, st => some (st.declareGlobal name kind ty).1
  | declareProcedure name, st => some (st.declareProcedure name).1
  | _, _ => none

/-- The symbol that a move adds to the external ones, which is the same for all stacks. -/
def ScopeMove.external? : ScopeMove → Option Symbol
  | declareExternal name kind ty => some (ScopeStack.empty.declareExternal name kind ty).1
  | _ => none

/-- The symbol comes from the move with the number `time`, which has put it at a place that was free,
and there it has stood ever since. -/
structure DeclaredAt (moves : List ScopeMove) (time level index : Nat) (s : Symbol) : Prop where
  declared : (moves[time]?.bind fun move => move.declared? (after (moves.take time))) = some s
  free : (after (moves.take time)).symbolAt? level index = none
  stands : ∀ later, time < later → later ≤ moves.length →
    (after (moves.take later)).symbolAt? level index = some s

/-- The address of a symbol at this level, declared behind the symbols `earlier` of its scope. -/
inductive Placed (level : Nat) (earlier : List Symbol) (s : Symbol) : Prop where
  | stored (offset : s.offset = some (earlier.countP (·.kind.hasStorage)))
      (frameDepth : s.frameDepth = level)
  | procedure (offset : s.offset = none) (frameDepth : s.frameDepth = level + 1)
      (kind : s.kind = .procedure)

def Scope.Settled (level : Nat) (scope : Scope) : Prop :=
  ∀ (index : Nat) (s : Symbol), scope.symbols[index]? = some s → Placed level (scope.symbols.take index) s

theorem Scope.settled_empty (level : Nat) : Scope.empty.Settled level := by
  intro index s hs
  simp at hs

theorem Scope.Settled.push {level : Nat} {scope : Scope} {s : Symbol} (h : scope.Settled level)
    (hs : Placed level scope.symbols s) : (scope.push s).Settled level := by
  intro index t ht
  rw [Scope.symbols_push] at ht ⊢
  rcases Nat.lt_or_ge index scope.symbols.length with hlt | hge
  · rw [List.getElem?_append_left hlt] at ht
    rw [List.take_append_of_le_length (Nat.le_of_lt hlt)]
    exact h index t ht
  · rw [List.getElem?_append_right hge] at ht
    obtain ⟨hindex, rfl⟩ := List.getElem?_eq_some_iff.mp ht
    have hlength : index = scope.symbols.length := by
      rw [List.length_singleton] at hindex
      omega
    simpa [hlength] using hs

theorem Scope.slots_eq_countP (scope : Scope) :
    scope.slots = scope.symbols.countP (·.kind.hasStorage) := by
  rw [scope.slots_eq, symbols, List.countP_reverse]

namespace ScopeStack

variable {st st' : ScopeStack} {level index : Nat} {s : Symbol}

/-! ## What a move can do -/

/-- No symbol is added: a scope of the second stack is in the first one, at the same level, or empty. -/
def Retains (st st' : ScopeStack) : Prop :=
  ∀ (level : Nat) (scope : Scope), st'.scopes.reverse[level]? = some scope →
    st.scopes.reverse[level]? = some scope ∨ scope = .empty

theorem retains_openScope (st : ScopeStack) : st.Retains st.openScope := by
  intro level scope hscope
  rw [openScope, List.reverse_cons, List.getElem?_append] at hscope
  split at hscope
  next => exact .inl hscope
  next => exact .inr (List.mem_singleton.mp (List.mem_of_getElem? hscope))

theorem retains_closeScope (st : ScopeStack) : st.Retains st.closeScope.2 := by
  intro level scope hscope
  refine .inl ?_
  obtain ⟨_ | ⟨inmost, outer⟩, externals, procedures⟩ := st
  · exact hscope
  · have hscope : outer.reverse[level]? = some scope := hscope
    rw [List.reverse_cons, List.getElem?_append_left (List.getElem?_eq_some_iff.mp hscope).1, hscope]

theorem retains_ensureScope (st : ScopeStack) : st.Retains st.ensureScope := by
  unfold ensureScope
  split
  · exact retains_openScope st
  · exact fun _ _ => .inl

theorem Retains.symbolAt (h : st.Retains st') (hs : st'.symbolAt? level index = some s) :
    st.symbolAt? level index = some s := by
  obtain ⟨scope, hscope, hs⟩ := Option.bind_eq_some_iff.mp hs
  rcases h level scope hscope with hold | rfl
  · exact Option.bind_eq_some_iff.mpr ⟨scope, hold, hs⟩
  · simp at hs

theorem exists_ensureScope (st : ScopeStack) :
    ∃ scope outer, st.ensureScope.scopes = scope :: outer := by
  obtain ⟨_ | ⟨scope, outer⟩, externals, procedures⟩ := st
  · exact ⟨.empty, [], rfl⟩
  · exact ⟨scope, outer, rfl⟩

theorem symbolAt_ensureScope (st : ScopeStack) :
    st.ensureScope.symbolAt? level index = st.symbolAt? level index := by
  obtain ⟨_ | ⟨scope, outer⟩, externals, procedures⟩ := st
  · refine Option.eq_none_iff_forall_not_mem.mpr fun s hs => ?_
    exact nomatch (retains_ensureScope _).symbolAt hs
  · rfl

theorem declaresAt_pushCurrent {scope : Scope} {outer : List Scope} (h : st.scopes = scope :: outer)
    (s : Symbol) : st.DeclaresAt outer.length s (st.pushCurrent s) := by
  obtain ⟨scopes, externals, procedures⟩ := st
  subst h
  exact ⟨reverse_cons_push scope outer s, rfl⟩

/-- A move that declares something has a scope for it, and adds the symbol at its place behind the
others. -/
theorem exists_declaresAt {move : ScopeMove} (h : move.declared? st = some s) :
    ∃ (place : Nat) (scope : Scope), st.ensureScope.scopes.reverse[place]? = some scope ∧
      Placed place scope.symbols s ∧ st.ensureScope.DeclaresAt place s (move.apply st) := by
  obtain ⟨scope, outer, hscopes⟩ := exists_ensureScope st
  have hdepth : st.ensureScope.depth = outer.length + 1 := by rw [depth, hscopes, List.length_cons]
  have hcurrent : st.ensureScope.scopes.reverse[outer.length]? = some scope := by simp [hscopes]
  cases move with
  | declareLocal name kind ty =>
    cases h
    refine ⟨outer.length, scope, hcurrent, .stored ?_ ?_, declaresAt_pushCurrent hscopes _⟩
    · simp [declareLocal, current?, hscopes, slotCount, Scope.slots_eq_countP]
    · simp [declareLocal, hdepth]
  | declareGlobal name kind ty =>
    cases h
    obtain ⟨global, hglobal⟩ : ∃ global, st.ensureScope.scopes.reverse[0]? = some global := by
      simp [hscopes]
    have hlast : st.ensureScope.global? = some global := by
      rw [global?, ← List.head?_reverse, List.head?_eq_getElem?, hglobal]
    refine ⟨0, global, hglobal, .stored ?_ rfl, reverse_pushLast _ _, rfl⟩
    simp [declareGlobal, hlast, slotCount, Scope.slots_eq_countP]
  | declareProcedure name =>
    cases h
    exact ⟨outer.length, scope, hcurrent, .procedure rfl hdepth rfl,
      declaresAt_pushCurrent hscopes _⟩
  | openScope | closeScope | declareExternal _ _ _ | enterProcedure _ | exitProcedure => cases h

theorem retains_apply {move : ScopeMove} (h : move.declared? st = none) :
    st.Retains (move.apply st) := by
  cases move with
  | openScope => exact retains_openScope st
  | enterProcedure name => exact retains_openScope st
  | closeScope => exact retains_closeScope st
  | exitProcedure => exact retains_closeScope st
  | declareExternal name kind ty => exact fun _ _ => .inl
  | declareLocal _ _ _ | declareGlobal _ _ _ | declareProcedure _ => cases h

/-- A symbol that is there after a move was there before, or the move has declared it. -/
theorem symbolAt_apply {move : ScopeMove} (hs : (move.apply st).symbolAt? level index = some s) :
    st.symbolAt? level index = some s ∨
      move.declared? st = some s ∧ st.symbolAt? level index = none := by
  cases hmove : move.declared? st with
  | none => exact .inl ((retains_apply hmove).symbolAt hs)
  | some t =>
    obtain ⟨place, scope, -, -, hdeclares⟩ := exists_declaresAt hmove
    rw [← symbolAt_ensureScope]
    rcases hdeclares.symbolAt hs with hold | ⟨rfl, -, hfree⟩
    · exact .inl hold
    · exact .inr ⟨rfl, hfree⟩

theorem symbolAt_ne_none_of_lt {index' : Nat} (hs : st.symbolAt? level index' = some s)
    (hlt : index < index') : st.symbolAt? level index ≠ none := by
  obtain ⟨scope, hscope, hs⟩ := Option.bind_eq_some_iff.mp hs
  have hlength := (List.getElem?_eq_some_iff.mp hs).1
  simp only [symbolAt?, hscope, Option.bind_some, ne_eq, List.getElem?_eq_none_iff]
  omega

theorem DeclaresAt.symbolAt_ne_none_of_lt {place index' : Nat} {t : Symbol}
    (h : st.DeclaresAt place t st') (hs : st'.symbolAt? level index' = some s)
    (hlt : index < index') : st.symbolAt? level index ≠ none := by
  obtain ⟨scope, hscope, hs⟩ := Option.bind_eq_some_iff.mp hs
  rw [h.scopes, List.getElem?_modify] at hscope
  obtain ⟨old, hold, rfl⟩ := Option.map_eq_some_iff.mp hscope
  have hindex := (List.getElem?_eq_some_iff.mp hs).1
  have hlength : index' < old.symbols.length + 1 := by
    refine Nat.lt_of_lt_of_le hindex ?_
    split <;> simp
  simp only [symbolAt?, hold, Option.bind_some, ne_eq, List.getElem?_eq_none_iff]
  omega

/-- In a scope, a place is taken by an earlier move than those behind it. -/
theorem symbolAt_ne_none_of_apply {move : ScopeMove} {index' : Nat}
    (hs : (move.apply st).symbolAt? level index' = some s) (hlt : index < index') :
    st.symbolAt? level index ≠ none := by
  cases hmove : move.declared? st with
  | none => exact symbolAt_ne_none_of_lt ((retains_apply hmove).symbolAt hs) hlt
  | some t =>
    obtain ⟨place, scope, -, -, hdeclares⟩ := exists_declaresAt hmove
    rw [← symbolAt_ensureScope]
    exact hdeclares.symbolAt_ne_none_of_lt hs hlt

/-! ## The invariant -/

/-- Every symbol of every scope is placed. -/
def Settled (st : ScopeStack) : Prop :=
  ∀ (level : Nat) (scope : Scope), st.scopes.reverse[level]? = some scope → scope.Settled level

theorem Settled.retains (h : st.Settled) (hretains : st.Retains st') : st'.Settled := by
  intro level scope hscope
  rcases hretains level scope hscope with hold | rfl
  · exact h level scope hold
  · exact Scope.settled_empty level

theorem Settled.declares {place : Nat} {scope : Scope} (h : st.Settled)
    (hscope : st.scopes.reverse[place]? = some scope) (hs : Placed place scope.symbols s)
    (hdeclares : st.DeclaresAt place s st') : st'.Settled := by
  intro level found hfound
  rw [hdeclares.scopes, List.getElem?_modify] at hfound
  obtain ⟨old, hold, rfl⟩ := Option.map_eq_some_iff.mp hfound
  by_cases hplace : place = level
  · subst hplace
    obtain rfl : scope = old := Option.some.inj (hscope.symm.trans hold)
    simpa using (h place scope hold).push hs
  · simpa [hplace] using h level old hold

theorem Settled.apply (h : st.Settled) (move : ScopeMove) : (move.apply st).Settled := by
  cases hmove : move.declared? st with
  | none => exact h.retains (retains_apply hmove)
  | some s =>
    obtain ⟨place, scope, hscope, hs, hdeclares⟩ := exists_declaresAt hmove
    exact (h.retains (retains_ensureScope st)).declares hscope hs hdeclares

theorem settled_after (moves : List ScopeMove) : (after moves).Settled := by
  induction moves using List.reverseRecOn with
  | nil =>
    intro level scope hscope
    simp [after, empty] at hscope
  | append_singleton moves move ih =>
    rw [after_concat]
    exact ih.apply move

end ScopeStack

theorem Placed.offset_eq {level : Nat} {earlier : List Symbol} {s : Symbol} {offset : Nat}
    (h : Placed level earlier s) (hoffset : s.offset = some offset) :
    offset = earlier.countP (·.kind.hasStorage) := by
  cases h with
  | stored hstored _ => exact Option.some.inj (hoffset.symm.trans hstored)
  | procedure hnone _ _ => cases hoffset.symm.trans hnone

theorem Placed.frameDepth_eq {level : Nat} {earlier : List Symbol} {s : Symbol}
    (h : Placed level earlier s) (hstorage : s.kind.hasStorage = true) :
    s.frameDepth = level ∧ s.offset = some (earlier.countP (·.kind.hasStorage)) := by
  cases h with
  | stored hoffset hframe => exact ⟨hframe, hoffset⟩
  | procedure _ _ hkind =>
    rw [hkind] at hstorage
    cases hstorage

theorem Placed.frameDepth_eq_succ {level : Nat} {earlier : List Symbol} {s : Symbol}
    (h : Placed level earlier s) (hoffset : s.offset = none) : s.frameDepth = level + 1 := by
  cases h with
  | stored hstored _ => cases hoffset.symm.trans hstored
  | procedure _ hframe _ => exact hframe

/-! ## Where symbols come from -/

variable {moves : List ScopeMove} {time level index : Nat} {s : Symbol}

theorem DeclaredAt.lt_length (h : DeclaredAt moves time level index s) : time < moves.length := by
  obtain ⟨move, hmove, -⟩ := Option.bind_eq_some_iff.mp h.declared
  exact (List.getElem?_eq_some_iff.mp hmove).1

theorem DeclaredAt.symbolAt (h : DeclaredAt moves time level index s) :
    (after moves).symbolAt? level index = some s := by
  simpa using h.stands moves.length h.lt_length (Nat.le_refl _)

/-- What the declaration of a procedure adds. -/
theorem DeclaredAt.procedure_eq {name : String} (h : DeclaredAt moves time level index s)
    (hmove : moves[time]? = some (.declareProcedure name)) :
    s = ⟨name, .procedure, .undefined, level + 1, none⟩ ∧ s.frameDepth = level + 1 := by
  have hdeclared := h.declared
  rw [hmove] at hdeclared
  obtain ⟨scope, hscope, hs⟩ := Option.bind_eq_some_iff.mp h.symbolAt
  have hplaced := settled_after moves level scope hscope index s hs
  cases hdeclared
  have hframe := hplaced.frameDepth_eq_succ rfl
  refine ⟨?_, hframe⟩
  rw [← hframe]
  rfl

/-- A move after which the symbol is still there. -/
theorem DeclaredAt.concat {move : ScopeMove} (h : DeclaredAt moves time level index s)
    (hs : (after (moves ++ [move])).symbolAt? level index = some s) :
    DeclaredAt (moves ++ [move]) time level index s := by
  have hlt := h.lt_length
  have htake : (moves ++ [move]).take time = moves.take time :=
    List.take_append_of_le_length (Nat.le_of_lt hlt)
  refine ⟨?_, htake ▸ h.free, fun later hlater hle => ?_⟩
  · rw [List.getElem?_append_left hlt, htake, h.declared]
  · rw [List.length_append, List.length_singleton] at hle
    rcases Nat.lt_or_eq_of_le hle with hle | rfl
    · rw [List.take_append_of_le_length (Nat.le_of_lt_succ hle)]
      exact h.stands later hlater (Nat.le_of_lt_succ hle)
    · rw [List.take_of_length_le (by simp)]
      exact hs

theorem DeclaredAt.new {move : ScopeMove} (hmove : move.declared? (after moves) = some s)
    (hfree : (after moves).symbolAt? level index = none)
    (hs : (after (moves ++ [move])).symbolAt? level index = some s) :
    DeclaredAt (moves ++ [move]) moves.length level index s := by
  refine ⟨by simp [hmove], by simpa using hfree, fun later hlater hle => ?_⟩
  rw [List.take_of_length_le (by simpa using Nat.succ_le_of_lt hlater)]
  exact hs

/-- Every symbol was put at its place by one of the moves. -/
theorem exists_declaredAt (hs : (after moves).symbolAt? level index = some s) :
    ∃ time, DeclaredAt moves time level index s := by
  induction moves using List.reverseRecOn with
  | nil => simp [after, ScopeStack.empty, symbolAt?] at hs
  | append_singleton moves move ih =>
    have hlast := hs
    rw [after_concat] at hlast
    rcases symbolAt_apply hlast with hold | ⟨hmove, hfree⟩
    · obtain ⟨time, htime⟩ := ih hold
      exact ⟨time, htime.concat hs⟩
    · exact ⟨moves.length, .new hmove hfree hs⟩

theorem after_take_succ (htime : time < moves.length) :
    ∃ move, moves[time]? = some move ∧
      after (moves.take (time + 1)) = move.apply (after (moves.take time)) := by
  refine ⟨moves[time], List.getElem?_eq_getElem htime, ?_⟩
  rw [List.take_succ_eq_append_getElem htime, after_concat]

/-- The symbols of a scope are in the order of the moves that have declared them. -/
theorem DeclaredAt.time_lt {time' index' : Nat} {s' : Symbol}
    (h : DeclaredAt moves time level index s) (h' : DeclaredAt moves time' level index' s')
    (hlt : index < index') : time < time' := by
  by_contra hle
  have hlength := h.lt_length
  obtain ⟨move, -, hmove⟩ := after_take_succ hlength
  have hstands := h'.stands (time + 1) (Nat.lt_succ_of_le (Nat.le_of_not_lt hle)) hlength
  rw [hmove] at hstands
  exact symbolAt_ne_none_of_apply hstands hlt h.free

theorem DeclaredAt.index_lt_iff {time' index' : Nat} {s' : Symbol}
    (h : DeclaredAt moves time level index s) (h' : DeclaredAt moves time' level index' s') :
    index < index' ↔ time < time' := by
  refine ⟨h.time_lt h', fun hlt => ?_⟩
  rcases Nat.lt_trichotomy index index' with hindex | rfl | hindex
  · exact hindex
  · -- The later move would not find the place free.
    have htaken := h.stands time' hlt (Nat.le_of_lt h'.lt_length)
    rw [h'.free] at htaken
    cases htaken
  · exact absurd (h'.time_lt h hindex) (Nat.lt_asymm hlt)

theorem ScopeMove.externals_apply (move : ScopeMove) (st : ScopeStack) :
    (move.apply st).externals.symbols = st.externals.symbols ++ move.external?.toList := by
  cases move with
  | declareExternal name kind ty => exact Scope.symbols_push _ _
  | declareLocal _ _ _ | declareProcedure _ =>
    obtain ⟨_ | ⟨scope, outer⟩, externals, procedures⟩ := st <;> exact (List.append_nil _).symm
  | declareGlobal _ _ _ =>
    obtain ⟨_ | ⟨scope, outer⟩, externals, procedures⟩ := st <;> exact (List.append_nil _).symm
  | openScope | closeScope | enterProcedure _ | exitProcedure => exact (List.append_nil _).symm

theorem externals_after (moves : List ScopeMove) :
    (after moves).externals.symbols = moves.filterMap ScopeMove.external? := by
  induction moves using List.reverseRecOn with
  | nil => rfl
  | append_singleton moves move ih =>
    rw [after_concat, ScopeMove.externals_apply, ih, List.filterMap_append]
    cases hmove : move.external? <;> simp [hmove]

/-! ## Resolution -/

namespace ScopeStack

theorem lacks_iff {st : ScopeStack} {name : String} :
    (∀ scope ∈ st.scopes, scope.Lacks name) ↔
      ∀ level index s, st.symbolAt? level index = some s → s.name ≠ name := by
  constructor
  · intro h level index s hs
    obtain ⟨scope, hscope, hs⟩ := Option.bind_eq_some_iff.mp hs
    exact h scope (List.mem_reverse.mp (List.mem_of_getElem? hscope)) s
      (List.mem_reverse.mp (List.mem_of_getElem? hs))
  · intro h scope hscope s hs
    obtain ⟨level, hlevel⟩ := List.mem_iff_getElem?.mp (List.mem_reverse.mpr hscope)
    obtain ⟨index, hindex⟩ := List.mem_iff_getElem?.mp (List.mem_reverse.mpr hs)
    exact h level index s (Option.bind_eq_some_iff.mpr ⟨scope, hlevel, hindex⟩)

theorem resolve_eq_none_iff {st : ScopeStack} {name : String} :
    st.resolve name = none ↔
      (∀ scope ∈ st.scopes, scope.Lacks name) ∧ st.externals.Lacks name := by
  unfold resolve
  split
  next s hs =>
    obtain ⟨scope, hscope, hfound⟩ := List.exists_of_findSome?_eq_some hs
    have hmem := (Scope.lookup_eq_some_iff.mp hfound).mem
    refine iff_of_false (by simp) fun h => ?_
    exact h.1 scope hscope s hmem (Scope.lookup_eq_some_iff.mp hfound).1
  next hnone =>
    rw [Option.map_eq_none_iff, Scope.lookup_eq_none_iff]
    refine (and_iff_right fun scope hscope => ?_).symm
    exact Scope.lookup_eq_none_iff.mp (List.findSome?_eq_none_iff.mp hnone scope hscope)

theorem resolve_external_iff {st : ScopeStack} {name : String} {s : Symbol} :
    st.resolve name = some ⟨s, true⟩ ↔
      (∀ scope ∈ st.scopes, scope.Lacks name) ∧ st.externals.Latest name s := by
  rw [resolve_eq_some_iff]
  constructor
  · rintro (_ | ⟨hlacks, hlatest⟩)
    exact ⟨hlacks, hlatest⟩
  · rintro ⟨hlacks, hlatest⟩
    exact .external hlacks hlatest

/-- A name is found at one place only. -/
theorem FoundAt.unique {st : ScopeStack} {name : String} {level index level' index' : Nat}
    (h : st.FoundAt name level index) (h' : st.FoundAt name level' index') :
    level = level' ∧ index = index' := by
  obtain ⟨s, hs, hname⟩ := h.named
  obtain ⟨s', hs', hname'⟩ := h'.named
  have hle := h.latest level' index' s' hs' hname'
  have hle' := h'.latest level index s hs hname
  omega

theorem resolve_declared_iff {st : ScopeStack} {name : String} {s : Symbol} :
    st.resolve name = some ⟨s, false⟩ ↔
      ∃ level index, st.symbolAt? level index = some s ∧ st.FoundAt name level index := by
  refine ⟨fun h => (exists_foundAt h).2, ?_⟩
  rintro ⟨level, index, hs, hfound⟩
  obtain ⟨t, ht, hname⟩ := hfound.named
  -- The name is in one of the scopes, so it cannot be unknown or external.
  have hhas : ¬∀ scope ∈ st.scopes, scope.Lacks name := fun hlacks =>
    lacks_iff.mp hlacks level index t ht hname
  match hresolve : st.resolve name with
  | none => exact absurd (resolve_eq_none_iff.mp hresolve).1 hhas
  | some ⟨_, true⟩ => exact absurd (resolve_external_iff.mp hresolve).1 hhas
  | some ⟨found, false⟩ =>
    obtain ⟨-, level', index', hs', hfound'⟩ := exists_foundAt hresolve
    obtain ⟨rfl, rfl⟩ := hfound.unique hfound'
    rw [Option.some.inj (hs.symm.trans hs')]

end ScopeStack

/-! ## All runs -/

/-- After any moves, a symbol with an offset has as many symbols with storage before it in its scope, and
the frame depth of a symbol with storage is the level of its scope.  A procedure has the depth inside of
its scope and no offset.  A name denotes its latest declaration in the innermost scope that has one, and
only if there is none its latest declaration as external; how far away it is, is the number of scopes
inside of its own. -/
theorem scope_runs_place_and_resolve (moves : List ScopeMove) :
    let st := after moves
    (∀ (level : Nat) (scope : Scope) (index : Nat) (s : Symbol),
      st.scopes.reverse[level]? = some scope → scope.symbols[index]? = some s →
        (∃ time, DeclaredAt moves time level index s) ∧
        (∀ offset, s.offset = some offset →
          offset = (scope.symbols.take index).countP (·.kind.hasStorage)) ∧
        (s.kind.hasStorage = true → s.offset.isSome = true ∧ s.frameDepth = level ∧
          st.dataLevel s + level + 1 = st.depth)) ∧
    (∀ time level index s name, DeclaredAt moves time level index s →
      moves[time]? = some (.declareProcedure name) →
        s = ⟨name, .procedure, .undefined, level + 1, none⟩ ∧
        st.callLevel s + level + 1 = st.depth) ∧
    (∀ time time' level index index' s s', DeclaredAt moves time level index s →
      DeclaredAt moves time' level index' s' → (index < index' ↔ time < time')) ∧
    st.externals.symbols = moves.filterMap ScopeMove.external? ∧
    (∀ name s, st.resolve name = some ⟨s, false⟩ ↔
      ∃ level index, st.symbolAt? level index = some s ∧ st.FoundAt name level index) ∧
    (∀ name s, st.resolve name = some ⟨s, true⟩ ↔
      (∀ level index t, st.symbolAt? level index = some t → t.name ≠ name) ∧
        st.externals.Latest name s) ∧
    (∀ name, st.resolve name = none ↔
      (∀ level index t, st.symbolAt? level index = some t → t.name ≠ name) ∧
        st.externals.Lacks name) := by
  intro st
  refine ⟨?_, ?_, fun _ _ _ _ _ _ _ h h' => h.index_lt_iff h', externals_after moves,
    fun _ _ => resolve_declared_iff, fun _ _ => ?_, fun _ => ?_⟩
  · intro level scope index s hscope hs
    have hplace : st.symbolAt? level index = some s :=
      Option.bind_eq_some_iff.mpr ⟨scope, hscope, hs⟩
    have hlt := lt_depth_of_symbolAt hplace
    have hplaced := settled_after moves level scope hscope index s hs
    refine ⟨exists_declaredAt hplace, fun offset hoffset => hplaced.offset_eq hoffset, ?_⟩
    intro hstorage
    obtain ⟨hframe, hoffset⟩ := hplaced.frameDepth_eq hstorage
    refine ⟨by rw [hoffset]; rfl, hframe, ?_⟩
    rw [dataLevel, hframe]
    omega
  · intro time level index s name h hmove
    obtain ⟨hs, hframe⟩ := h.procedure_eq hmove
    have hlt : level < st.depth := lt_depth_of_symbolAt h.symbolAt
    refine ⟨hs, ?_⟩
    rw [callLevel, hframe]
    omega
  · rw [resolve_external_iff, lacks_iff]
  · rw [resolve_eq_none_iff, lacks_iff]

/-- A run that closes a scope before there is one, declares where none is open, enters what was not
declared, and adds to the scope of the program from inside. -/
def unrulyRun : List ScopeMove :=
  [.closeScope, .declareLocal "a" .procedure .int, .declareLocal "x" .var .int, .enterProcedure "p",
    .declareGlobal "g" .const .bool, .declareProcedure "q", .declareExternal "q" .var .int,
    .declareProcedure "q", .openScope]

theorem unrulyRun_declaredAt :
    DeclaredAt unrulyRun 7 1 1 ⟨"q", .procedure, .undefined, 2, none⟩ := by
  refine ⟨by decide, by decide, fun later hlater hle => ?_⟩
  have hcases : later = 8 ∨ later = 9 := by
    have hle : later ≤ 9 := hle
    omega
  rcases hcases with rfl | rfl <;> decide

/-- The second procedure of the name is found, one level out, and the constant of the program has the
slot behind the variable. -/
theorem scope_runs_place_and_resolve_unruly :
    DeclaredAt unrulyRun 7 1 1 ⟨"q", .procedure, .undefined, 2, none⟩ ∧
    (after unrulyRun).callLevel ⟨"q", .procedure, .undefined, 2, none⟩ + 1 + 1 = 3 ∧
    (after unrulyRun).resolve "q" = some ⟨⟨"q", .procedure, .undefined, 2, none⟩, false⟩ ∧
    (∃ level index, (after unrulyRun).symbolAt? level index =
        some ⟨"q", .procedure, .undefined, 2, none⟩ ∧
      (after unrulyRun).FoundAt "q" level index) ∧
    (after unrulyRun).dataLevel ⟨"g", .const, .bool, 0, some 1⟩ + 0 + 1 = 3 := by
  obtain ⟨hplaced, hprocedure, -, -, hresolve, -⟩ := scope_runs_place_and_resolve unrulyRun
  have hfound : (after unrulyRun).resolve "q" =
      some ⟨⟨"q", .procedure, .undefined, 2, none⟩, false⟩ := by decide
  refine ⟨unrulyRun_declaredAt, (hprocedure 7 1 1 _ "q" unrulyRun_declaredAt rfl).2, hfound,
    (hresolve _ _).mp hfound, ?_⟩
  exact ((hplaced 0 _ 2 ⟨"g", .const, .bool, 0, some 1⟩ rfl rfl).2.2 rfl).2.2

end SlotLang
