import SlotLang.Proofs.Footprint
import SlotLang.Proofs.LoweringCode

/-!
# The sizes of variables and structs

A variable takes as many slots as it has elements, times the number of scalars of one element.  The
number is bounded: a declaration that would go above the limit declares nothing, and a member that
would take its struct above the limit is left out as a whole.  Since every definition was made under
this rule, no struct of a table is larger than the limit.
-/

namespace SlotLang

open Lowering Aggregate

/-! ## Counting -/

namespace Aggregate

theorem elementCount_nil : elementCount [] = 1 := rfl

theorem elementCount_cons (bound : Nat) (bounds : List Nat) :
    elementCount (bound :: bounds) = (bound + 1) * elementCount bounds := by
  have hfoldl : ∀ (start : Nat) (factors : List Nat),
      factors.foldl (· * ·) start = start * factors.foldl (· * ·) 1 := by
    intro start factors
    induction factors generalizing start with
    | nil => simp
    | cons factor factors ih =>
      rw [List.foldl_cons, List.foldl_cons, ih, ih (1 * factor), Nat.one_mul, Nat.mul_assoc]
  simp only [elementCount, List.map_cons, List.foldl_cons, Nat.one_mul]
  exact hfoldl _ _

theorem length_allElements (base : String) (bounds : List Nat) :
    (allElements base bounds).length = elementCount bounds := by
  induction bounds generalizing base with
  | nil => rfl
  | cons bound bounds ih =>
    simp [allElements, elementCount_cons, List.length_flatMap, ih]

end Aggregate

/-- The number of scalars of one value of the type, unless it is a struct that is not defined. -/
def DeclaredTy.width? (structs : StructTable) : DeclaredTy → Option Nat
  | scalar _ => some 1
  | struct name => (structs.get? name).map (·.members.length)

theorem DeclaredTy.length_members {structs : StructTable} {ty : DeclaredTy} {width : Nat}
    (h : ty.width? structs = some width) (names : List String) :
    (ty.members structs names).length = names.length * width := by
  cases ty with
  | scalar ty =>
    cases h
    simp [members]
  | struct name =>
    obtain ⟨d, hd, rfl⟩ := Option.map_eq_some_iff.mp h
    simp [members, hd, List.length_flatMap, StructDef.instanceMembers]

/-- There are too many elements, or there is no such struct, or the elements have too many scalars
together. -/
def DeclaredTy.Oversized (structs : StructTable) (ty : DeclaredTy) (bounds : List Nat) : Prop :=
  elementLimit < elementCount bounds ∨ ty.width? structs = none ∨
    ∃ width, ty.width? structs = some width ∧ elementLimit < elementCount bounds * width

/-- The faults for which a variable or a member is not declared at all. -/
def Fault.isRefusal : Fault → Bool
  | .arrayTooLarge _ | .structNotDefined _ => true
  | _ => false

def Event.isRefusal : Event → Bool
  | .fault e => e.fault.isRefusal
  | .consumed | .warning _ _ => false

theorem flatten_eq (name : String) (bounds : List Nat) (width : Nat) :
    flatten name bounds width =
      if elementCount bounds ≤ elementLimit ∧ elementCount bounds * width ≤ elementLimit then
        some (allElements name bounds) else none := by
  unfold flatten elements?
  by_cases hcount : elementCount bounds ≤ elementLimit
  · simp only [hcount, if_true, exceedsLimit, length_allElements, true_and, decide_eq_true_eq]
    grind
  · simp [hcount]

/-! ## Variables -/

/-- Looking for the elements of a variable changes at most the register of arrays. -/
theorem variableElements_apply (name : String) (ty : DeclaredTy) (bounds : List Nat) (env : Env) :
    ∃ arrays events, (∀ event ∈ events, event.isRefusal = false) ∧
      variableElements name ty bounds env =
        if elementCount bounds ≤ elementLimit then
          ⟨some (allElements name bounds), [], events, { env with arrays := arrays }⟩
        else
          ⟨none, [], events ++ [.fault ⟨.arrayTooLarge name, env.last.start⟩],
            { env with arrays := arrays }⟩ := by
  by_cases hempty : bounds.isEmpty = true
  · refine ⟨env.arrays, [], by simp, ?_⟩
    rw [List.isEmpty_iff.mp hempty]
    rfl
  · let key : ArrayKey := ⟨name, ty.elementTy, bounds.length⟩
    refine ⟨env.arrays.insert key, (registerArray key env).events, ?_, ?_⟩
    · by_cases hknown : env.arrays.contains key = true <;>
        simp [registerArray, hknown, refuse, modifyEnv, Lowering.env, Event.isRefusal,
          Fault.isRefusal]
    · have henv : (registerArray key env).env = { env with arrays := env.arrays.insert key } ∧
          (registerArray key env).code = [] := by
        by_cases hknown : env.arrays.contains key = true <;>
          simp [registerArray, hknown, refuse, modifyEnv, Lowering.env]
      have hflatten := flatten_eq name bounds 1
      simp only [Nat.mul_one, and_self] at hflatten
      simp only [variableElements, hempty, hflatten]
      by_cases hcount : elementCount bounds ≤ elementLimit <;>
        simp [hcount, henv, key, refuse]

/-- A variable is declared as a whole or not at all, and apart from that only the register of arrays
can change. -/
theorem declareVariable_apply (name : String) (ty : DeclaredTy) (bounds : List Nat) (env : Env) :
    ∃ arrays events, (∀ event ∈ events, event.isRefusal = false) ∧
      ((ty.Oversized env.structs bounds ∧ ∃ refusal : Event, refusal.isRefusal = true ∧
          declareVariable name ty bounds env =
            ⟨(), [], events ++ [refusal], { env with arrays := arrays }⟩) ∨
        (¬ ty.Oversized env.structs bounds ∧
          declareVariable name ty bounds env =
            ⟨(), [], events, { env with
              arrays := arrays
              scopes := env.scopes.declareAll
                (ty.members env.structs (allElements name bounds)) }⟩)) := by
  obtain ⟨arrays, events, hevents, helements⟩ := variableElements_apply name ty bounds env
  refine ⟨arrays, events, hevents, ?_⟩
  unfold DeclaredTy.Oversized
  by_cases hcount : elementCount bounds ≤ elementLimit
  · rw [if_pos hcount] at helements
    cases ty with
    | scalar ty =>
      refine .inr ⟨by simp [DeclaredTy.width?]; omega, ?_⟩
      simp [declareVariable, helements, declareMembers, modifyEnv, DeclaredTy.members]
    | struct structName =>
      cases hd : env.structs.get? structName with
      | none =>
        refine .inl ⟨by simp [DeclaredTy.width?, hd],
          .fault ⟨.structNotDefined structName, env.last.start⟩, rfl, ?_⟩
        simp [declareVariable, helements, Lowering.env, hd, refuse]
      | some d =>
        by_cases hwidth : elementLimit < elementCount bounds * d.members.length
        · refine .inl ⟨.inr (.inr ⟨_, by simp [DeclaredTy.width?, hd], hwidth⟩),
            .fault ⟨.arrayTooLarge name, env.last.start⟩, rfl, ?_⟩
          simp [declareVariable, helements, Lowering.env, hd, refuse, exceedsLimit,
            length_allElements, hwidth]
        · refine .inr ⟨by simp [DeclaredTy.width?, hd]; omega, ?_⟩
          simp [declareVariable, helements, Lowering.env, hd, exceedsLimit, length_allElements,
            hwidth, declareMembers, modifyEnv, DeclaredTy.members]
  · rw [if_neg hcount] at helements
    refine .inl ⟨.inl (by omega), .fault ⟨.arrayTooLarge name, env.last.start⟩, rfl, ?_⟩
    simp [declareVariable, helements]

/-- Declaring scalars adds a symbol for each of them to the innermost scope. -/
theorem ScopeStack.declareAll_adds {st : ScopeStack} (h : st.scopes ≠ []) (members : List Member) :
    ∃ created, st.Adds (st.declareAll members) created ∧
      created.map (fun s => (⟨s.name, s.ty, s.kind⟩ : Member)) = members := by
  induction members generalizing st with
  | nil => exact ⟨[], .refl h, rfl⟩
  | cons m members ih =>
    have hfirst : ∃ s : Symbol, st.Adds (st.declareStorage m.path m.kind m.ty).2 [s] ∧
        (⟨s.name, s.ty, s.kind⟩ : Member) = m := by
      obtain ⟨_ | ⟨scope, outer⟩, externals, procedures⟩ := st
      · simp at h
      · rw [declareStorage_cons]
        exact ⟨_, .pushCurrent h _, rfl⟩
    obtain ⟨s, hadds, hs⟩ := hfirst
    obtain ⟨created, hmore, hcreated⟩ := ih hadds.ne_nil
    exact ⟨s :: created, hadds.trans hmore, by rw [List.map_cons, hs, hcreated]⟩

/-! ## Members -/

/-- A member is left out for the same reasons as a variable, and if it would take its struct above the
limit. -/
def DeclaredTy.Overfills (structs : StructTable) (d : StructDef) (ty : DeclaredTy)
    (bounds : List Nat) : Prop :=
  elementLimit < elementCount bounds ∨ ty.width? structs = none ∨
    ∃ width, ty.width? structs = some width ∧
      elementLimit < d.members.length + elementCount bounds * width

theorem addMembers_add_apply (d : StructDef) (name : String) (bounds : List Nat) (width : Nat)
    (expand : List String → List Member) (env : Env) :
    addMembers.add d name bounds width expand env =
      if elementLimit < elementCount bounds ∨
          elementLimit < d.members.length + elementCount bounds * width then
        ⟨d, [], [.fault ⟨.arrayTooLarge name, env.last.start⟩], env⟩
      else ⟨{ d with members := d.members ++ expand (allElements name bounds) }, [], [], env⟩ := by
  have hpaths : (if bounds.isEmpty then some [name] else flatten name bounds width) =
      if elementCount bounds ≤ elementLimit ∧
          (bounds = [] ∨ elementCount bounds * width ≤ elementLimit) then
        some (allElements name bounds) else none := by
    by_cases hempty : bounds = []
    · subst hempty
      simp [elementCount_nil, elementLimit, allElements]
    · simp [List.isEmpty_iff, hempty, flatten_eq]
  unfold addMembers.add
  rw [hpaths]
  by_cases hcount : elementLimit < elementCount bounds
  · simp [hcount, Nat.not_le.mpr hcount, refuse]
  · by_cases hsum : elementLimit < d.members.length + elementCount bounds * width
    · by_cases hfits : bounds = [] ∨ elementCount bounds * width ≤ elementLimit
      · simp [Nat.not_lt.mp hcount, hfits, exceedsLimit, length_allElements, hsum, refuse]
      · simp [hfits, hsum, refuse]
    · have hfits : elementCount bounds * width ≤ elementLimit := by omega
      simp [hcount, Nat.not_lt.mp hcount, hfits, exceedsLimit, length_allElements, hsum]

theorem addMembers_eq_add {ty : DeclaredTy} {env : Env} {width : Nat}
    (h : ty.width? env.structs = some width) (d : StructDef) (name : String) (bounds : List Nat) :
    addMembers d name ty bounds env =
      addMembers.add d name bounds width (ty.members env.structs) env := by
  cases ty with
  | scalar ty =>
    cases h
    rfl
  | struct structName =>
    obtain ⟨d', hd, rfl⟩ := Option.map_eq_some_iff.mp h
    have hmembers : (DeclaredTy.struct structName).members env.structs =
        fun paths => paths.flatMap d'.instanceMembers := by
      funext paths
      simp [DeclaredTy.members, hd]
    simp [addMembers, Lowering.env, hd, hmembers]

/-- The scalars of a member are added as a whole or not at all. -/
theorem addMembers_apply (d : StructDef) (name : String) (ty : DeclaredTy) (bounds : List Nat)
    (env : Env) :
    (ty.Overfills env.structs d bounds ∧ ∃ refusal : Event, refusal.isRefusal = true ∧
        addMembers d name ty bounds env = ⟨d, [], [refusal], env⟩) ∨
      (¬ ty.Overfills env.structs d bounds ∧
        addMembers d name ty bounds env =
          ⟨{ d with members := d.members ++ ty.members env.structs (allElements name bounds) }, [],
            [], env⟩) := by
  cases hwidth : ty.width? env.structs with
  | some width =>
    have hiff : ty.Overfills env.structs d bounds ↔ elementLimit < elementCount bounds ∨
        elementLimit < d.members.length + elementCount bounds * width := by
      simp [DeclaredTy.Overfills, hwidth]
    rw [addMembers_eq_add hwidth, addMembers_add_apply, hiff]
    split
    next hrefused => exact .inl ⟨hrefused, _, rfl, rfl⟩
    next haccepted => exact .inr ⟨haccepted, rfl⟩
  | none =>
    cases ty with
    | scalar ty => simp [DeclaredTy.width?] at hwidth
    | struct structName =>
      have hd : env.structs.get? structName = none := Option.map_eq_none_iff.mp hwidth
      refine .inl ⟨.inr (.inl hwidth), .fault ⟨.structNotDefined structName, env.last.start⟩, rfl,
        ?_⟩
      simp [addMembers, Lowering.env, hd, refuse]

end SlotLang
