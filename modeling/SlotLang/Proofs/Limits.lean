import SlotLang.Proofs.Stages

/-!
# Limits

A declaration that goes above the limit does not declare a part of what it says: it declares
nothing, it is a fault, and apart from the register of arrays everything stays as it was.  The same
holds of a member of a struct.  So no struct is ever larger than the limit, however deep it is built
from others.

The number of elements of an array is a product of bounds, each of which can be as large as a machine
word, and nothing has checked the product when it is formed.  The first part says that machine words
are enough for all these numbers: where a product or a sum does not fit into a word, it is above the
limit in any case.
-/

namespace SlotLang

open Lowering Aggregate

/-! ## Machine words -/

namespace Word

/-- The sum of two words, if it is a word. -/
def add? (a b : Nat) : Option Nat := if a + b < Text.wordBound then some (a + b) else none

/-- The product of two words, if it is a word. -/
def mul? (a b : Nat) : Option Nat := if a * b < Text.wordBound then some (a * b) else none

/-- The sum of two words, or the largest word. -/
def saturatingAdd (a b : Nat) : Nat := min (a + b) (Text.wordBound - 1)

/-- The product of two words, or the largest word. -/
def saturatingMul (a b : Nat) : Nat := min (a * b) (Text.wordBound - 1)

/-- The number of elements of an array, computed in words. -/
def elementCount? (bounds : List Nat) : Option Nat := do
  let extents ← bounds.mapM fun bound => add? bound 1
  extents.foldlM mul? 1

theorem elementLimit_lt_wordBound : elementLimit < Text.wordBound := by decide

/-- A product of numbers that are not zero does not become smaller on the way. -/
theorem foldlM_mul? (factors : List Nat) (hfactors : ∀ factor ∈ factors, 0 < factor) (start : Nat)
    (hstart : start < Text.wordBound) :
    factors.foldlM mul? start =
      if factors.foldl (· * ·) start < Text.wordBound then some (factors.foldl (· * ·) start)
      else none := by
  have hgrows : ∀ (factors : List Nat), (∀ factor ∈ factors, 0 < factor) → ∀ start : Nat,
      start ≤ factors.foldl (· * ·) start := by
    intro factors
    induction factors with
    | nil => exact fun _ _ => Nat.le_refl _
    | cons factor factors ih =>
      intro hfactors start
      obtain ⟨hfactor, hfactors⟩ := List.forall_mem_cons.mp hfactors
      exact Nat.le_trans (Nat.le_mul_of_pos_right start hfactor) (ih hfactors _)
  induction factors generalizing start with
  | nil => simp [hstart]
  | cons factor factors ih =>
    obtain ⟨-, hfactors⟩ := List.forall_mem_cons.mp hfactors
    rw [List.foldlM_cons, List.foldl_cons]
    by_cases hfits : start * factor < Text.wordBound
    · simpa [mul?, hfits] using ih hfactors (start * factor) hfits
    · have hlarge := hgrows factors hfactors (start * factor)
      have hover : ¬ factors.foldl (· * ·) (start * factor) < Text.wordBound := by omega
      simp [mul?, hfits, hover]

theorem mapM_add? (bounds : List Nat) :
    bounds.mapM (fun bound => add? bound 1) =
      if ∀ bound ∈ bounds, bound + 1 < Text.wordBound then some (bounds.map (· + 1)) else none := by
  induction bounds with
  | nil => simp
  | cons bound bounds ih =>
    rw [List.mapM_cons, ih]
    by_cases hbound : bound + 1 < Text.wordBound
    · by_cases hbounds : ∀ bound ∈ bounds, bound + 1 < Text.wordBound
      · rw [if_pos hbounds]
        simp [add?, hbound, if_pos hbounds]
      · rw [if_neg hbounds]
        simp [add?, hbound, if_neg hbounds]
    · simp [add?, hbound]

theorem lt_elementCount {bounds : List Nat} {bound : Nat} (h : bound ∈ bounds) :
    bound < elementCount bounds := by
  have hpos : ∀ bounds : List Nat, 0 < elementCount bounds := by
    intro bounds
    induction bounds with
    | nil => exact Nat.one_pos
    | cons bound bounds ih =>
      rw [elementCount_cons]
      exact Nat.mul_pos (Nat.succ_pos _) ih
  induction bounds with
  | nil => simp at h
  | cons first bounds ih =>
    rw [elementCount_cons]
    rcases List.mem_cons.mp h with rfl | h
    · exact Nat.lt_of_lt_of_le (Nat.lt_succ_self _) (Nat.le_mul_of_pos_right _ (hpos bounds))
    · exact Nat.lt_of_lt_of_le (ih h) (Nat.le_mul_of_pos_left _ (Nat.succ_pos _))

theorem elementCount?_eq (bounds : List Nat) :
    elementCount? bounds =
      if elementCount bounds < Text.wordBound then some (elementCount bounds) else none := by
  unfold elementCount?
  rw [mapM_add?]
  by_cases hbounds : ∀ bound ∈ bounds, bound + 1 < Text.wordBound
  · rw [if_pos hbounds]
    exact foldlM_mul? _ (by simp) 1 (by decide)
  · have hover : ¬ elementCount bounds < Text.wordBound := by
      intro hlt
      refine hbounds fun bound hbound => ?_
      have hle := lt_elementCount hbound
      omega
    rw [if_neg hbounds, if_neg hover]
    rfl

end Word

/-- Computed in words, every decision about sizes is the same. -/
structure DecidedInWords : Prop where
  elements : ∀ (base : String) (bounds : List Nat), elements? base bounds =
    ((Word.elementCount? bounds).filter (· ≤ elementLimit)).map fun _ => allElements base bounds
  product : ∀ elements width : Nat, exceedsLimit elements width =
    (Word.mul? elements width).all (elementLimit < ·)
  sum : ∀ members elements width : Nat, exceedsLimit (members + elements * width) 1 =
    exceedsLimit (Word.saturatingAdd members (Word.saturatingMul elements width)) 1
  /-- Sizes within the limit never come near the largest word. -/
  room : ∀ members elements width : Nat, members ≤ elementLimit → elements ≤ elementLimit →
    width ≤ elementLimit → Word.mul? elements width = some (elements * width) ∧
      Word.saturatingAdd members (Word.saturatingMul elements width) = members + elements * width

theorem decidedInWords : DecidedInWords where
  elements base bounds := by
    have hlimit := Word.elementLimit_lt_wordBound
    rw [elements?, Word.elementCount?_eq]
    by_cases hcount : elementCount bounds ≤ elementLimit
    · have hlt : elementCount bounds < Text.wordBound := by omega
      simp [hcount, hlt, Option.filter]
    · by_cases hlt : elementCount bounds < Text.wordBound <;> simp [hcount, hlt, Option.filter]
  product elements width := by
    have hlimit := Word.elementLimit_lt_wordBound
    unfold exceedsLimit Word.mul?
    by_cases hlt : elements * width < Text.wordBound
    · simp [hlt]
    · have hover : elementLimit < elements * width := by omega
      simp [hlt, hover]
  sum members elements width := by
    have hlimit : elementLimit < Text.wordBound - 1 := by decide
    simp only [exceedsLimit, Nat.mul_one, Word.saturatingAdd, Word.saturatingMul, decide_eq_decide]
    generalize elements * width = added
    omega
  room members elements width hmembers helements hwidth := by
    have hadded : elements * width ≤ elementLimit * elementLimit := Nat.mul_le_mul helements hwidth
    have hroom : elementLimit + elementLimit * elementLimit < Text.wordBound - 1 := by decide
    have hfits : elements * width < Text.wordBound := by omega
    refine ⟨by simp [Word.mul?, hfits], ?_⟩
    unfold Word.saturatingAdd Word.saturatingMul
    omega

/-! ## Variables and members -/

/-- All scalars of the variable have been added to the innermost scope, and nothing else has happened
to what is declared. -/
structure Outcome.DeclaresAll (o : Outcome Unit) (env : Env) (c : Component) (width : Nat) :
    Prop where
  defined : c.ty.width? env.structs = some width
  created : ∃ created : List Symbol, env.scopes.Adds o.env.scopes created ∧
    created.map (fun s => (⟨s.name, s.ty, s.kind⟩ : Member)) = c.members env.structs ∧
    created.length = elementCount c.bounds * width ∧ created.length ≤ elementLimit
  structs : o.env.structs = env.structs
  signatures : o.env.signatures = env.signatures
  code : o.code = []
  accepted : ∀ event ∈ o.events, event.isRefusal = false

/-- Nothing has been declared, and there is a fault for it. -/
structure Outcome.DeclaresNone (o : Outcome Unit) (env : Env) : Prop where
  scopes : o.env.scopes = env.scopes
  structs : o.env.structs = env.structs
  signatures : o.env.signatures = env.signatures
  code : o.code = []
  refused : ∃ event ∈ o.events, event.isFault = true ∧ event.isRefusal = true

theorem declareVariable_oversized {env : Env} {c : Component}
    (h : c.ty.Oversized env.structs c.bounds) :
    (declareVariable c.name c.ty c.bounds env).DeclaresNone env := by
  obtain ⟨arrays, events, -, ⟨-, refusal, hrefusal, heq⟩ | ⟨hfits, -⟩⟩ :=
    declareVariable_apply c.name c.ty c.bounds env
  · rw [heq]
    exact ⟨rfl, rfl, rfl, rfl, refusal, by simp, Event.isFault_of_isRefusal hrefusal, hrefusal⟩
  · exact absurd h hfits

theorem declareVariable_fits {env : Env} (hne : env.scopes.scopes ≠ []) {c : Component}
    (h : ¬ c.ty.Oversized env.structs c.bounds) :
    ∃ width, (declareVariable c.name c.ty c.bounds env).DeclaresAll env c width := by
  obtain ⟨arrays, events, hevents, ⟨hover, -⟩ | ⟨hfits, heq⟩⟩ :=
    declareVariable_apply c.name c.ty c.bounds env
  · exact absurd hover h
  · simp only [DeclaredTy.Oversized, not_or, not_exists, not_and, Nat.not_lt] at hfits
    obtain ⟨-, hdefined, hsize⟩ := hfits
    obtain ⟨width, hwidth⟩ := Option.ne_none_iff_exists'.mp hdefined
    obtain ⟨created, hadds, hmembers⟩ := ScopeStack.declareAll_adds hne (c.members env.structs)
    have hlength : created.length = elementCount c.bounds * width := by
      rw [← Component.length_members hwidth, ← hmembers, List.length_map]
    rw [heq]
    exact ⟨width, hwidth, ⟨created, hadds, hmembers, hlength, hlength ▸ hsize width hwidth⟩, rfl, rfl,
      rfl, hevents⟩

/-- A variable is declared as a whole if it fits, and otherwise not at all. -/
theorem declareVariable_all_or_none {env : Env} (hne : env.scopes.scopes ≠ []) (c : Component) :
    ((∃ width, (declareVariable c.name c.ty c.bounds env).DeclaresAll env c width) ↔
      ¬ c.ty.Oversized env.structs c.bounds) ∧
    ((declareVariable c.name c.ty c.bounds env).DeclaresNone env ↔
      c.ty.Oversized env.structs c.bounds) := by
  have hexclusive : ∀ width, (declareVariable c.name c.ty c.bounds env).DeclaresAll env c width →
      ¬ (declareVariable c.name c.ty c.bounds env).DeclaresNone env := by
    rintro width hall hnone
    obtain ⟨event, hevent, -, hrefusal⟩ := hnone.refused
    rw [hall.accepted event hevent] at hrefusal
    cases hrefusal
  refine ⟨⟨?_, declareVariable_fits hne⟩, ⟨fun hnone => ?_, declareVariable_oversized⟩⟩
  · rintro ⟨width, hall⟩ hover
    exact hexclusive width hall (declareVariable_oversized hover)
  · by_contra hfits
    obtain ⟨width, hall⟩ := declareVariable_fits hne hfits
    exact hexclusive width hall hnone

/-- All scalars of the member have been added to the definition. -/
structure Outcome.AddsAll (o : Outcome StructDef) (env : Env) (d : StructDef) (c : Component)
    (width : Nat) : Prop where
  defined : c.ty.width? env.structs = some width
  value : o.value = { d with members := d.members ++ c.members env.structs }
  length : o.value.members.length = d.members.length + elementCount c.bounds * width
  limit : o.value.members.length ≤ elementLimit
  env : o.env = env
  code : o.code = []
  events : o.events = []

/-- The definition has stayed as it was, and there is a fault for it. -/
structure Outcome.AddsNone (o : Outcome StructDef) (env : Env) (d : StructDef) : Prop where
  value : o.value = d
  env : o.env = env
  code : o.code = []
  refused : ∃ event ∈ o.events, event.isFault = true

theorem addMembers_all_or_none (d : StructDef) (c : Component) (env : Env) :
    ((∃ width, (addMembers d c.name c.ty c.bounds env).AddsAll env d c width) ↔
      ¬ c.ty.Overfills env.structs d c.bounds) ∧
    ((addMembers d c.name c.ty c.bounds env).AddsNone env d ↔
      c.ty.Overfills env.structs d c.bounds) := by
  rcases addMembers_apply d c.name c.ty c.bounds env with
    ⟨hover, refusal, hrefusal, heq⟩ | ⟨hfits, heq⟩
  · rw [heq]
    have hnone : Outcome.AddsNone ⟨d, [], [refusal], env⟩ env d :=
      ⟨rfl, rfl, rfl, refusal, by simp, Event.isFault_of_isRefusal hrefusal⟩
    simp only [hover, hnone, not_true_eq_false, iff_false, not_exists, iff_self, and_true]
    exact fun width hall => absurd hall.events (by simp)
  · rw [heq]
    have hall := hfits
    simp only [DeclaredTy.Overfills, not_or, not_exists, not_and, Nat.not_lt] at hall
    obtain ⟨-, hdefined, hsize⟩ := hall
    obtain ⟨width, hwidth⟩ := Option.ne_none_iff_exists'.mp hdefined
    have hlength : (d.members ++ c.members env.structs).length =
        d.members.length + elementCount c.bounds * width := by
      rw [List.length_append, Component.length_members hwidth]
    have hadded : Outcome.AddsAll
        ⟨{ d with members := d.members ++ c.members env.structs }, [], [], env⟩ env d c width :=
      ⟨hwidth, rfl, hlength, hlength ▸ hsize width hwidth, rfl, rfl, rfl⟩
    simp only [hfits, not_false_eq_true, iff_true, iff_false]
    refine ⟨⟨width, hadded⟩, fun hnone => ?_⟩
    obtain ⟨event, hevent, -⟩ := hnone.refused
    simp at hevent

/-! ## Struct tables -/

theorem Stage.step_grown {s : Stage} (h : s.structs.Grown) (l : Landmark) :
    (s.step l).structs.Grown := by
  cases l with
  | define layout => exact h.define layout
  | declare c =>
    dsimp only [step]
    split <;> exact h
  | _ => exact h

theorem Stage.run_grown {s : Stage} (h : s.structs.Grown) (landmarks : List Landmark) :
    (s.run landmarks).structs.Grown := by
  induction landmarks generalizing s with
  | nil => exact h
  | cons l landmarks ih => exact ih (s.step_grown h l)

/-- No phrase makes a struct in any other way than by a definition. -/
theorem Outcome.Visits.grown {α : Type} {o : Outcome α} {s : Stage} {landmarks : List Landmark}
    (h : o.Visits s landmarks) (hs : s.structs.Grown) : o.env.structs.Grown := by
  have hstructs : o.env.structs = (s.run landmarks).structs := congrArg Stage.structs h.stage
  rw [hstructs]
  exact Stage.run_grown hs landmarks

/-- In a program, a variable of any size is declared as a whole or not at all: all its scalars are
there, and they are within the limit, or there is a fault and no trace of it.  What decides is whether
the number of elements is above the limit, the struct is missing, or the number of scalars is above
the limit.  The same holds of a member in a definition, and so no struct is ever above the limit.
Machine words are enough to decide all this, whatever the bounds are. -/
theorem flattening_all_or_nothing {env : Env} (hdepth : 1 ≤ env.scopes.depth)
    (hgrown : env.structs.Grown) (c : Component) :
    ((∃ width, (declareVariable c.name c.ty c.bounds env).DeclaresAll env c width) ↔
      ¬ c.ty.Oversized env.structs c.bounds) ∧
    ((declareVariable c.name c.ty c.bounds env).DeclaresNone env ↔
      c.ty.Oversized env.structs c.bounds) ∧
    (∀ d : StructDef,
      ((∃ width, (addMembers d c.name c.ty c.bounds env).AddsAll env d c width) ↔
        ¬ c.ty.Overfills env.structs d c.bounds) ∧
      ((addMembers d c.name c.ty c.bounds env).AddsNone env d ↔
        c.ty.Overfills env.structs d c.bounds)) ∧
    (∀ d ∈ env.structs.defs, d.members.length ≤ elementLimit) ∧
    (∀ d : Declaration, (d.lower env).env.structs.Grown) ∧
    (∀ item : ProgramItem, (item.lower env).env.structs.Grown) ∧
    (∀ (p : Program) (first : Token), ∀ d ∈ (p.lower (.start first)).env.structs.defs,
      d.members.length ≤ elementLimit) ∧
    DecidedInWords := by
  have hne : env.scopes.scopes ≠ [] := List.length_pos_iff.mp hdepth
  obtain ⟨hall, hnone⟩ := declareVariable_all_or_none hne c
  refine ⟨hall, hnone, fun d => addMembers_all_or_none d c env, fun d hd => (hgrown.modest d hd).size,
    fun d => ?_, fun item => ?_, fun p first d hd => ?_, decidedInWords⟩
  · have hvisits : Visits [] d.lower d.landmarks := d.lower_visits
    exact (hvisits env).grown hgrown
  · have hvisits : Visits [] item.lower item.landmarks := item.lower_visits
    exact (hvisits env).grown hgrown
  · exact (((p.lower_visits first).grown .empty).modest d hd).size

theorem pairEnv_grown : pairEnv.structs.Grown := by
  have hvisits : Visits [] pairDefinition.lower pairDefinition.landmarks :=
    pairDefinition.lower_visits
  exact (hvisits _).grown .empty

/-- Six scalars for two pairs, and none at all for more pairs than there is room for, although so many
integers would have been within the limit. -/
theorem flattening_all_or_nothing_pair :
    1 ≤ pairEnv.scopes.depth ∧ pairEnv.structs.Grown ∧
    (∃ width, (declareVariable "p" (.struct "pair") [1] pairEnv).DeclaresAll pairEnv
      ⟨"p", .struct "pair", [1]⟩ width ∧ elementCount [1] * width = 6) ∧
    elementCount [30000] ≤ elementLimit ∧
    (declareVariable "p" (.struct "pair") [30000] pairEnv).DeclaresNone pairEnv := by
  have hdepth : 1 ≤ pairEnv.scopes.depth := by decide +kernel
  have hwidth : DeclaredTy.width? pairEnv.structs (.struct "pair") = some 3 := by decide +kernel
  have hsmall := flattening_all_or_nothing hdepth pairEnv_grown ⟨"p", .struct "pair", [1]⟩
  have hlarge := flattening_all_or_nothing hdepth pairEnv_grown ⟨"p", .struct "pair", [30000]⟩
  obtain ⟨width, hall⟩ := hsmall.1.mpr (by decide +kernel)
  have hthree : width = 3 := Option.some.inj (hall.defined.symm.trans hwidth)
  exact ⟨hdepth, pairEnv_grown, ⟨width, hall, by rw [hthree]; decide⟩, by decide,
    hlarge.2.1.mpr (by decide +kernel)⟩

end SlotLang
