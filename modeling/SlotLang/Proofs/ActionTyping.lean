import Mathlib.Data.List.Forall2
import SlotLang.Proofs.Elaboration

/-!
# Typing rules of resolved programs

The type of a term is read off its form and off the symbols that its names denote.  An action is well
typed if its terms have the types that it needs; only a call looks at anything else, the signature
that is known for its label.

All values are integers or Booleans.  A symbol with storage has one of these two types as soon as its
declaration has a type at all, and `Static.Scalar` keeps track of that.
-/

namespace SlotLang

open Aggregate

def Ty.IsScalar (ty : Ty) : Prop := ty = .int ∨ ty = .bool

namespace Use

/-- The name denotes a symbol of this kind and type. -/
def Denotes (u : Use) (kind : SymbolKind) (ty : Ty) : Prop :=
  ∃ target, u.target? = some target ∧ target.symbol.kind = kind ∧ target.symbol.ty = ty

/-- The name denotes a procedure that can be called with arguments of these types, as far as its
parameters are known. -/
def Accepts (u : Use) (signatures : Signatures) (types : List Ty) : Prop :=
  ∃ target, u.target? = some target ∧ target.symbol.kind = .procedure ∧
    ∀ signature, signatures.get? (callLabel u.scopes target) = some signature →
      signature.params = types

end Use

inductive Term.HasType : Term → Ty → Prop where
  | number (value : Int) : HasType (.number value) .int
  | boolean (value : Bool) : HasType (.boolean value) .bool
  | use {u : Use} {kind : SymbolKind} {ty : Ty} (hkind : kind.hasStorage = true)
      (hdenotes : u.Denotes kind ty) : HasType (.use u) ty
  | negation {operand : Term} (h : HasType operand .int) : HasType (.negation operand) .int
  | arithmetic {op : ArithOp} {left right : Term} (hleft : HasType left .int)
      (hright : HasType right .int) : HasType (.arithmetic op left right) .int
  | comparison {op : Comparison} {left right : Term} {ty : Ty} (hleft : HasType left ty)
      (hright : HasType right ty) : HasType (.comparison op left right) .bool

mutual

def Action.WellTyped : Action → Prop
  | .skip => True
  | .store kind target value =>
      ∃ ty, kind.hasStorage = true ∧ target.Denotes kind ty ∧ value.HasType ty
  | .choose target guard first second =>
      ∃ ty, target.Denotes .var ty ∧ guard.HasType .bool ∧ first.HasType ty ∧ second.HasType ty
  | .call callee arguments signatures =>
      ∃ types, List.Forall₂ Term.HasType arguments types ∧ callee.Accepts signatures types
  | .read target => target.Denotes .var .int
  | .write value => value.HasType .int
  | .seq first second => first.WellTyped ∧ second.WellTyped
  | .branch test body alternative =>
      test.HasType .bool ∧ body.WellTyped ∧ alternative.WellTyped
  | .loop test body => test.HasType .bool ∧ body.WellTyped
  | .rounds test target step body =>
      ∃ ty, test.HasType .bool ∧ target.Denotes .var ty ∧ step.HasType ty ∧ body.WellTyped
  | .switch subject cases fallback =>
      ∃ ty, subject.HasType ty ∧ cases.WellTyped ty ∧ fallback.WellTyped

def Cases.WellTyped : Cases → Ty → Prop
  | .none, _ => True
  | .case label body rest, ty => label.HasType ty ∧ body.WellTyped ∧ rest.WellTyped ty

end

/-- A symbol that holds a value holds an integer or a Boolean. -/
def Symbol.Scalar (s : Symbol) : Prop := s.kind.hasStorage = true → s.ty.IsScalar

def Body.WellTyped : Body → Prop
  | .done => True
  | .action a rest => a.WellTyped ∧ rest.WellTyped
  | .nested _ _ frame inner rest =>
      ((∀ s ∈ frame.entries, s.Scalar) ∧ inner.WellTyped) ∧ rest.WellTyped

def Routine.WellTyped (r : Routine) : Prop :=
  (∀ s ∈ r.frame.entries, s.Scalar) ∧ r.body.WellTyped

def Part.WellTyped : Part → Prop
  | .action a => a.WellTyped
  | .routine r => r.WellTyped

/-! ## The arguments of a call -/

theorem Typing.argumentTypes_ok {name : String} {index : Nat} {params args : List Ty}
    (hlength : params.length = args.length)
    (h : argumentTypes name index params args = .ok ()) : params = args := by
  induction params generalizing index args with
  | nil =>
    cases args with
    | nil => rfl
    | cons arg args => simp at hlength
  | cons param params ih =>
    cases args with
    | nil => simp at hlength
    | cons arg args =>
      simp only [argumentTypes] at h
      split at h
      next heq =>
        have htail : params = args := ih (by simpa using hlength) h
        rw [heq, htail]
      next => simp at h

theorem Typing.arguments_ok {signature : Signature} {args : List Ty}
    (h : arguments signature args = .ok ()) : signature.params = args := by
  unfold arguments at h
  split at h
  next hlength => exact argumentTypes_ok hlength h
  next => simp at h

/-! ## Symbols of scalar type -/

namespace ScopeStack

/-- Every symbol of the stack, external or not, has the property. -/
structure Every (P : Symbol → Prop) (st : ScopeStack) : Prop where
  declared : ∀ scope ∈ st.scopes, ∀ s ∈ scope.entries, P s
  external : ∀ s ∈ st.externals.entries, P s

variable {P : Symbol → Prop} {st : ScopeStack}

theorem Every.openScope (h : st.Every P) : st.openScope.Every P := by
  refine ⟨?_, h.external⟩
  intro scope hscope s hs
  rcases List.mem_cons.mp hscope with rfl | hscope
  · simp [Scope.empty] at hs
  · exact h.declared scope hscope s hs

theorem Every.ensureScope (h : st.Every P) : st.ensureScope.Every P := by
  unfold ScopeStack.ensureScope
  split
  · exact h.openScope
  · exact h

theorem Every.pushCurrent (h : st.Every P) {s : Symbol} (hs : P s) :
    (st.pushCurrent s).Every P := by
  unfold ScopeStack.pushCurrent
  split
  · exact h
  next scope outer hscopes =>
    refine ⟨?_, h.external⟩
    intro other hother t ht
    rcases List.mem_cons.mp hother with rfl | hother
    · rcases List.mem_cons.mp ht with rfl | ht
      · exact hs
      · exact h.declared scope (by simp [hscopes]) t ht
    · exact h.declared other (by simp [hscopes, hother]) t ht

theorem mem_of_mem_pushLast {s t : Symbol} {scopes : List Scope} {scope : Scope}
    (hscope : scope ∈ pushLast s scopes) (ht : t ∈ scope.entries) :
    t = s ∨ ∃ other ∈ scopes, t ∈ other.entries := by
  induction scopes with
  | nil => simp [pushLast] at hscope
  | cons first rest ih =>
    cases rest with
    | nil =>
      simp only [pushLast, List.mem_singleton] at hscope
      subst hscope
      rcases List.mem_cons.mp ht with rfl | ht
      · exact .inl rfl
      · exact .inr ⟨first, by simp, ht⟩
    | cons second rest =>
      simp only [pushLast, List.mem_cons] at hscope
      rcases hscope with rfl | hscope
      · exact .inr ⟨scope, by simp, ht⟩
      · rcases ih hscope with rfl | ⟨other, hother, ht⟩
        · exact .inl rfl
        · exact .inr ⟨other, by simp [hother], ht⟩

theorem Every.declareLocal (h : st.Every P) {name : String} {kind : SymbolKind} {ty : Ty}
    (hs : P (st.declareLocal name kind ty).1) : (st.declareLocal name kind ty).2.Every P :=
  h.ensureScope.pushCurrent hs

theorem Every.declareProcedure (h : st.Every P) {name : String}
    (hs : P (st.declareProcedure name).1) : (st.declareProcedure name).2.Every P :=
  h.ensureScope.pushCurrent hs

theorem Every.declareGlobal (h : st.Every P) {name : String} {kind : SymbolKind} {ty : Ty}
    (hs : P (st.declareGlobal name kind ty).1) : (st.declareGlobal name kind ty).2.Every P := by
  refine ⟨?_, h.ensureScope.external⟩
  intro scope hscope t ht
  rcases mem_of_mem_pushLast hscope ht with rfl | ⟨other, hother, ht⟩
  · exact hs
  · exact h.ensureScope.declared other hother t ht

theorem Every.declareStorage (h : st.Every P) {name : String} {kind : SymbolKind} {ty : Ty}
    (hs : P (st.declareStorage name kind ty).1) : (st.declareStorage name kind ty).2.Every P := by
  unfold ScopeStack.declareStorage at hs ⊢
  split
  next hdepth =>
    rw [if_pos hdepth] at hs
    exact h.declareGlobal hs
  next hdepth =>
    rw [if_neg hdepth] at hs
    exact h.declareLocal hs

theorem Every.declareExternal (h : st.Every P) {name : String} {kind : SymbolKind} {ty : Ty}
    (hs : P (st.declareExternal name kind ty).1) :
    (st.declareExternal name kind ty).2.Every P := by
  refine ⟨h.declared, ?_⟩
  intro t ht
  rcases List.mem_cons.mp ht with rfl | ht
  · exact hs
  · exact h.external t ht

theorem Every.getD (h : st.Every P) {scope? : Option Scope}
    (hscope : ∀ scope, scope? = some scope → scope ∈ st.scopes) :
    ∀ s ∈ (scope?.getD .empty).entries, P s := by
  cases scope? with
  | none => simp [Scope.empty]
  | some scope => exact h.declared scope (hscope scope rfl)

theorem Every.current (h : st.Every P) : ∀ s ∈ (st.current?.getD .empty).entries, P s :=
  h.getD fun _ => List.mem_of_head?

theorem Every.global (h : st.Every P) : ∀ s ∈ (st.global?.getD .empty).entries, P s :=
  h.getD fun _ => List.mem_of_getLast?

theorem Every.exitProcedure (h : st.Every P) : st.exitProcedure.2.Every P :=
  ⟨fun scope hscope => h.declared scope (List.mem_of_mem_tail hscope), h.external⟩

end ScopeStack

structure Static.Scalar (st : Static) : Prop where
  symbols : st.scopes.Every Symbol.Scalar
  members : ∀ d ∈ st.structs.defs, ∀ m ∈ d.members, m.ty.IsScalar

theorem ScopeStack.declareStorage_ty (st : ScopeStack) (name : String) (kind : SymbolKind)
    (ty : Ty) : (st.declareStorage name kind ty).1.ty = ty := by
  unfold ScopeStack.declareStorage
  split <;> rfl

theorem ScopeStack.Every.declareAll {st : ScopeStack} (h : st.Every Symbol.Scalar)
    {members : List Member} (hmembers : ∀ m ∈ members, m.ty.IsScalar) :
    (st.declareAll members).Every Symbol.Scalar := by
  induction members generalizing st with
  | nil => exact h
  | cons m members ih =>
    refine ih ?_ fun other hother => hmembers other (List.mem_cons_of_mem _ hother)
    refine h.declareStorage ?_
    intro _
    rw [ScopeStack.declareStorage_ty]
    exact hmembers m List.mem_cons_self

end SlotLang
