import SlotLang.Compile

/-!
# Lowering without faults

Most of what can be said about emitted code holds only where nothing was refused.  This module says
when a sequence of events has no fault, that an error count of zero means just that, and how a
property of a faultless lowering is found from the properties of its steps.

The last part is a calculus of weakest preconditions.  `x.Ensures env post` says that if `x` meets no
fault in `env`, then its value, its code and the environment that it leaves satisfy `post`.  A step
that refuses something ensures whatever one likes, so the recovery from faults never shows up in a
proof that goes through these rules.
-/

namespace SlotLang

def Event.isFault : Event → Bool
  | .fault _ => true
  | .consumed | .warning _ _ => false

/-- No event of the list is a fault. -/
def Faultless (events : List Event) : Prop :=
  ∀ event ∈ events, event.isFault = false

instance (events : List Event) : Decidable (Faultless events) :=
  inferInstanceAs (Decidable (∀ event ∈ events, event.isFault = false))

@[simp] theorem faultless_nil : Faultless [] := by
  simp [Faultless]

@[simp] theorem faultless_cons (event : Event) (events : List Event) :
    Faultless (event :: events) ↔ event.isFault = false ∧ Faultless events := by
  simp [Faultless]

@[simp] theorem faultless_append (first second : List Event) :
    Faultless (first ++ second) ↔ Faultless first ∧ Faultless second := by
  simp only [Faultless, List.mem_append]
  constructor
  · intro h
    exact ⟨fun e he => h e (.inl he), fun e he => h e (.inr he)⟩
  · rintro ⟨hfirst, hsecond⟩ e (he | he)
    · exact hfirst e he
    · exact hsecond e he

/-! ## The error count -/

namespace Reporter

/-- The count of surfaced faults never goes down. -/
theorem count_le_hearAll (r : Reporter) (events : List Event) :
    r.count ≤ (r.hearAll events).count := by
  induction events generalizing r with
  | nil => exact Nat.le_refl _
  | cons event events ih =>
    refine Nat.le_trans ?_ (ih (r.hear event))
    cases event with
    | consumed => exact Nat.le_refl _
    | warning message position => exact Nat.le_refl _
    | fault e =>
      simp only [hear, report]
      split
      · exact Nat.le_succ _
      · exact Nat.le_refl _

/-- As long as no fault was heard, the next one will surface: the distance only grows. -/
theorem count_hearAll_eq_zero_iff (r : Reporter) (hcount : r.count = 0)
    (hdistance : r.minDistance ≤ r.distance) (events : List Event) :
    (r.hearAll events).count = 0 ↔ Faultless events := by
  induction events generalizing r with
  | nil => simp [hcount]
  | cons event events ih =>
    rw [hearAll_cons, faultless_cons]
    cases event with
    | consumed =>
      have hgrown : r.tokenConsumed.minDistance ≤ r.tokenConsumed.distance :=
        Nat.le_succ_of_le hdistance
      simpa [hear, Event.isFault] using ih r.tokenConsumed hcount hgrown
    | warning message position =>
      simpa [hear, Event.isFault] using ih (r.warn message position) hcount hdistance
    | fault e =>
      have hsurfaced : (r.hear (.fault e)).count = r.count + 1 := by
        simp [hear, report, surfaces, hdistance]
      have hle := count_le_hearAll (r.hear (.fault e)) events
      constructor
      · intro hzero
        omega
      · rintro ⟨hfault, -⟩
        simp [Event.isFault] at hfault

theorem count_new_hearAll_eq_zero_iff (minDistance : Nat) (events : List Event) :
    ((new minDistance).hearAll events).count = 0 ↔ Faultless events :=
  count_hearAll_eq_zero_iff (new minDistance) rfl (Nat.le_refl _) events

end Reporter

/-! ## What a faultless lowering ensures -/

namespace Lowering

/-- If nothing is refused, then `post` holds of the value, the code and the environment left. -/
def Ensures {α : Type} (x : Lowering α) (env : Env)
    (post : α → List Instruction → Env → Prop) : Prop :=
  Faultless (x env).events → post (x env).value (x env).code (x env).env

theorem Ensures.mono {α : Type} {x : Lowering α} {env : Env}
    {weak strong : α → List Instruction → Env → Prop} (h : x.Ensures env strong)
    (himp : ∀ a code env', strong a code env' → weak a code env') : x.Ensures env weak :=
  fun hfaultless => himp _ _ _ (h hfaultless)

variable {α β : Type} {env : Env}

@[simp] theorem ensures_true (x : Lowering α) :
    (x.Ensures env fun _ _ _ => True) ↔ True := by
  simp [Ensures]

@[simp] theorem ensures_pure (a : α) (post : α → List Instruction → Env → Prop) :
    (pure a : Lowering α).Ensures env post ↔ post a [] env := by
  simp [Ensures]

@[simp] theorem ensures_bind (x : Lowering α) (f : α → Lowering β)
    (post : β → List Instruction → Env → Prop) :
    (x >>= f).Ensures env post ↔
      x.Ensures env fun a code env' =>
        (f a).Ensures env' fun b code' env'' => post b (code ++ code') env'' := by
  simp only [Ensures, bind_apply, faultless_append]
  exact and_imp

theorem map_eq_bind (f : α → β) (x : Lowering α) : f <$> x = x >>= fun a => pure (f a) := rfl

@[simp] theorem ensures_map (f : α → β) (x : Lowering α)
    (post : β → List Instruction → Env → Prop) :
    (f <$> x).Ensures env post ↔ x.Ensures env fun a code env' => post (f a) code env' := by
  simp [map_eq_bind]

@[simp] theorem ensures_discard (x : Lowering α) (post : PUnit → List Instruction → Env → Prop) :
    (discard x).Ensures env post ↔ x.Ensures env fun _ code env' => post ⟨⟩ code env' := by
  have hdiscard : discard x = x >>= fun _ => pure PUnit.unit := rfl
  simp [hdiscard]

@[simp] theorem ensures_env (post : Env → List Instruction → Env → Prop) :
    Lowering.env.Ensures env post ↔ post env [] env := by
  simp [Ensures, Lowering.env]

@[simp] theorem ensures_modifyEnv (f : Env → Env) (post : Unit → List Instruction → Env → Prop) :
    (modifyEnv f).Ensures env post ↔ post () [] (f env) := by
  simp [Ensures, modifyEnv]

@[simp] theorem ensures_withScopes (f : ScopeStack → α × ScopeStack)
    (post : α → List Instruction → Env → Prop) :
    (withScopes f).Ensures env post ↔
      post (f env.scopes).1 [] { env with scopes := (f env.scopes).2 } := by
  simp [Ensures, withScopes]

@[simp] theorem ensures_freshLabel (post : Label → List Instruction → Env → Prop) :
    freshLabel.Ensures env post ↔
      post (.fresh env.nextLabel) [] { env with nextLabel := env.nextLabel + 1 } := by
  simp [Ensures, freshLabel]

@[simp] theorem ensures_emitAll (code : List Instruction)
    (post : Unit → List Instruction → Env → Prop) :
    (emitAll code).Ensures env post ↔ post () code env := by
  simp [Ensures, emitAll]

@[simp] theorem ensures_emit (op : Op) (post : Unit → List Instruction → Env → Prop) :
    (emit op).Ensures env post ↔ post () [.plain op] env := by
  simp [emit]

@[simp] theorem ensures_land (label : Label) (post : Unit → List Instruction → Env → Prop) :
    (land label).Ensures env post ↔ post () [.landing label] env := by
  simp [land]

@[simp] theorem ensures_captured (x : Lowering α)
    (post : α × List Instruction → List Instruction → Env → Prop) :
    (captured x).Ensures env post ↔
      x.Ensures env fun a code env' => post (a, code) [] env' := by
  simp [Ensures, captured]

@[simp] theorem ensures_consume (token : Token) (post : Unit → List Instruction → Env → Prop) :
    (consume token).Ensures env post ↔ post () [] { env with last := token } := by
  simp [Ensures, consume, Event.isFault]

@[simp] theorem ensures_refuseBefore (next : Token) (fault : Fault)
    (post : Unit → List Instruction → Env → Prop) :
    (refuseBefore next fault).Ensures env post ↔ True := by
  simp [Ensures, refuseBefore, Event.isFault]

@[simp] theorem ensures_refuse (fault : Fault) (post : Unit → List Instruction → Env → Prop) :
    (refuse fault).Ensures env post ↔ True := by
  simp [Ensures, refuse, Event.isFault]

@[simp] theorem ensures_warn (message : String) (post : Unit → List Instruction → Env → Prop) :
    (warn message).Ensures env post ↔ post () [] env := by
  simp [Ensures, warn, Event.isFault]

@[simp] theorem ensures_skip (production : String) (token : Token)
    (post : Unit → List Instruction → Env → Prop) :
    (skip production token).Ensures env post ↔ True := by
  simp [skip]

@[simp] theorem ensures_check (rule : Except Fault α)
    (post : Unit → List Instruction → Env → Prop) :
    (check rule).Ensures env post ↔ ∀ a, rule = .ok a → post () [] env := by
  cases rule with
  | ok a => simp [check]
  | error fault => simp [check]

@[simp] theorem ensures_load (target : Resolved) (post : Unit → List Instruction → Env → Prop) :
    (load target).Ensures env post ↔
      post () [.plain (target.loadOp (env.scopes.dataLevel target.symbol))] env := by
  simp [load]

@[simp] theorem ensures_store (target : Resolved) (post : Unit → List Instruction → Env → Prop) :
    (store target).Ensures env post ↔
      post () [.plain (target.storeOp (env.scopes.dataLevel target.symbol))] env := by
  simp [store]

/-- A name that is looked up without a fault denotes something. -/
@[simp] theorem ensures_resolve (name : String)
    (post : Option Resolved → List Instruction → Env → Prop) :
    (resolve name).Ensures env post ↔
      ∀ target, env.scopes.resolve name = some target → post (some target) [] env := by
  cases hfound : env.scopes.resolve name with
  | none => simp [resolve, hfound]
  | some target => simp [resolve, hfound]

@[simp] theorem ensures_terminal (terminal : Terminal)
    (post : Unit → List Instruction → Env → Prop) :
    terminal.lower.Ensures env post ↔
      ∀ token, terminal = .read token → post () [] { env with last := token } := by
  cases terminal with
  | read token => simp [Terminal.lower]
  | missing kind next => simp [Terminal.lower]

end Lowering
end SlotLang
