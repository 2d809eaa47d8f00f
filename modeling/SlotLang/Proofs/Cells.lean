import SlotLang.Proofs.ScopeGrowth

/-!
# Storage cells and symbols

A name is resolved when it is read, and its storage is addressed by a level and an offset.  The level
is computed from depths and the offset was counted when the symbol was declared, so nothing in an
address says which symbol it stands for.  This module says it: the level is the place of a frame
among those of the routines around the instruction, and the offset is the slot that the symbol has in
that frame.
-/

namespace SlotLang

/-- The cell is where the symbol is stored, if the frames are those of the routines around, the
innermost first. -/
inductive Cell.Holds (frames : List Scope) (globals externals : Scope) : Cell → Symbol → Prop where
  | frame {level offset : Nat} {frame : Scope} {s : Symbol} (hlevel : frames[level]? = some frame)
      (hstores : frame.Stores s offset) (hlt : offset < frame.slots) :
      Holds frames globals externals (.frame level offset) s
  | slot {offset : Nat} {s : Symbol} (hstores : globals.Stores s offset)
      (hlt : offset < globals.slots) :
      Holds frames globals externals (.global (.slot (offset + reservedSlots))) s
  | external {s : Symbol} (hdeclared : s ∈ externals.entries) (hstorage : s.kind.hasStorage = true) :
      Holds frames globals externals (.global (.name s.name)) s

/-! ## What a name denotes -/

namespace Scope

/-- The name is not declared in the scope. -/
def Lacks (scope : Scope) (name : String) : Prop := ∀ s ∈ scope.entries, s.name ≠ name

/-- The symbol is the latest declaration of the name in the scope. -/
def Latest (scope : Scope) (name : String) (s : Symbol) : Prop :=
  s.name = name ∧ ∃ newer older, scope.entries = newer ++ s :: older ∧ ∀ t ∈ newer, t.name ≠ name

theorem Latest.mem {scope : Scope} {name : String} {s : Symbol} (h : scope.Latest name s) :
    s ∈ scope.entries := by
  obtain ⟨-, newer, older, hentries, -⟩ := h
  simp [hentries]

theorem lookup_eq_none_iff {scope : Scope} {name : String} :
    scope.lookup name = none ↔ scope.Lacks name := by
  simp [lookup, Lacks]

theorem lookup_eq_some_iff {scope : Scope} {name : String} {s : Symbol} :
    scope.lookup name = some s ↔ scope.Latest name s := by
  simp [lookup, Latest, List.find?_eq_some_iff_append]

end Scope

namespace ScopeStack

/-- What a name denotes: its latest declaration in the innermost scope that has one, or else its
latest declaration as external. -/
inductive Finds (st : ScopeStack) (name : String) : Resolved → Prop where
  | declared {s : Symbol} {inside outside : List Scope} {scope : Scope}
      (hscopes : st.scopes = inside ++ scope :: outside) (hlacks : ∀ t ∈ inside, t.Lacks name)
      (hlatest : scope.Latest name s) : Finds st name ⟨s, false⟩
  | external {s : Symbol} (hlacks : ∀ scope ∈ st.scopes, scope.Lacks name)
      (hlatest : st.externals.Latest name s) : Finds st name ⟨s, true⟩

theorem resolve_eq_some_iff {st : ScopeStack} {name : String} {target : Resolved} :
    st.resolve name = some target ↔ st.Finds name target := by
  unfold resolve
  constructor
  · intro h
    split at h
    next s hs =>
      cases h
      obtain ⟨inside, scope, outside, hscopes, hfound, hnone⟩ := List.findSome?_eq_some_iff.mp hs
      exact .declared hscopes (fun t ht => Scope.lookup_eq_none_iff.mp (hnone t ht))
        (Scope.lookup_eq_some_iff.mp hfound)
    next hnone =>
      obtain ⟨s, hs, rfl⟩ := Option.map_eq_some_iff.mp h
      have hnone := List.findSome?_eq_none_iff.mp hnone
      exact .external (fun t ht => Scope.lookup_eq_none_iff.mp (hnone t ht))
        (Scope.lookup_eq_some_iff.mp hs)
  · intro h
    cases h with
    | @declared s inside outside scope hscopes hlacks hlatest =>
      have hfound : st.scopes.findSome? (fun scope => scope.lookup name) = some s :=
        List.findSome?_eq_some_iff.mpr ⟨inside, scope, outside, hscopes,
          Scope.lookup_eq_some_iff.mpr hlatest,
          fun t ht => Scope.lookup_eq_none_iff.mpr (hlacks t ht)⟩
      rw [hfound]
    | external hlacks hlatest =>
      have hnone : st.scopes.findSome? (fun scope => scope.lookup name) = none :=
        List.findSome?_eq_none_iff.mpr fun t ht => Scope.lookup_eq_none_iff.mpr (hlacks t ht)
      rw [hnone, Scope.lookup_eq_some_iff.mpr hlatest]
      rfl

theorem Stages.get {scopes final : List Scope} (h : Stages scopes final) {i : Nat} {scope : Scope}
    (hi : scopes[i]? = some scope) :
    ∃ later, final[i]? = some later ∧ scope.entries <:+ later.entries := by
  induction h generalizing i with
  | nil => simp at hi
  | cons hhead _ ih =>
    cases i with
    | zero =>
      cases hi
      exact ⟨_, rfl, hhead⟩
    | succ i => exact ih hi

end ScopeStack

theorem LaidOutStack.get {scopes : List Scope} (h : LaidOutStack scopes) {i : Nat} {scope : Scope}
    (hi : scopes[i]? = some scope) :
    LaidOut (scopes.length - 1 - i) scope.entries := by
  induction scopes generalizing i with
  | nil => simp at hi
  | cons first outer ih =>
    cases i with
    | zero =>
      cases hi
      exact h.1
    | succ i =>
      have hlaid := ih h.2 hi
      rwa [show (first :: outer).length - 1 - (i + 1) = outer.length - 1 - i by
        simp only [List.length_cons]; omega]

theorem LaidOut.stores {depth : Nat} {scope : Scope} {s : Symbol}
    (h : LaidOut depth scope.entries) (hs : s ∈ scope.entries)
    (hstorage : s.kind.hasStorage = true) :
    ∃ offset, scope.Stores s offset ∧ offset < scope.slots := by
  obtain ⟨offset, hoffset, hlt⟩ := h.offset_lt hs hstorage
  exact ⟨offset, ⟨hs, hstorage, hoffset⟩, scope.slots_eq ▸ hlt⟩

section

variable {frames : List Scope} {globals externals : Scope}

/-- The cell of a name is the one of the symbol that the name denotes. -/
theorem Use.cell_holds (hlaid : LaidOutStack (frames ++ [globals])) {u : Use}
    (hpast : u.scopes.Past (frames ++ [globals]) externals) {target : Resolved}
    (htarget : u.target? = some target) (hstorage : target.symbol.kind.hasStorage = true) :
    u.cell.Holds frames globals externals target.symbol := by
  have hcell : u.cell = target.cell (u.scopes.dataLevel target.symbol) := by
    rw [Use.cell, htarget]
  rw [hcell]
  cases ScopeStack.resolve_eq_some_iff.mp htarget with
  | external _ hlatest => exact .external (hpast.externals.mem hlatest.mem) hstorage
  | @declared s inside outside scope hscopes _ hlatest =>
    generalize hi : inside.length = i
    have hscope : u.scopes.scopes[i]? = some scope := by simp [hscopes, ← hi]
    obtain ⟨later, hlater, hsuffix⟩ := hpast.stages.get hscope
    have hs : s ∈ later.entries := hsuffix.mem hlatest.mem
    have hscope := hlaid.get hlater
    have hdepth : s.frameDepth = frames.length - i := by
      rw [hscope.frameDepth hs hstorage]
      simp
    obtain ⟨offset, hstores, hlt⟩ := hscope.stores hs hstorage
    have hbound : i < (frames ++ [globals]).length := (List.getElem?_eq_some_iff.mp hlater).1
    rw [List.length_append, List.length_singleton] at hbound
    -- The scope of the program has depth zero; any other scope is a frame.
    by_cases hglobal : i = frames.length
    · subst hglobal
      rw [List.getElem?_append_right (Nat.le_refl _), Nat.sub_self] at hlater
      cases hlater
      simp only [Resolved.cell, Resolved.storage, Symbol.isGlobal, hdepth, hstores.offset]
      simpa using Cell.Holds.slot hstores hlt
    · have hlevel : u.scopes.dataLevel s = i := by
        have hopen : u.scopes.depth = frames.length + 1 := by
          simpa [ScopeStack.depth] using hpast.stages.length_eq
        rw [ScopeStack.dataLevel, hopen, hdepth]
        omega
      rw [List.getElem?_append_left (by omega)] at hlater
      have hlocal : s.isGlobal = false := by
        simp only [Symbol.isGlobal, hdepth, beq_eq_false_iff_ne]
        omega
      simp only [Resolved.cell, Resolved.storage, hlocal, hstores.offset, hlevel]
      exact .frame hlater hstores hlt

end

end SlotLang
