import SlotLang.Proofs.ActionTyping
import SlotLang.Proofs.Faultless

/-!
# The code of faultless trees

Where lowering meets no fault, it produces the code of the elaborated tree, draws as many labels as
that code has, and leaves the names with the meaning that elaboration gives them; and the elaborated
tree is well typed.  There is one lemma for every phrase.  They are the only place where tokens,
typing rules and code come together: whatever is said later about faultless programs is said about
resolved ones.
-/

namespace SlotLang

open Lowering Aggregate

/-- Nothing has changed but the token passed last. -/
def Passed (env env' : Env) : Prop := ∃ token, env' = { env with last := token }

theorem Passed.refl (env : Env) : Passed env env := ⟨env.last, rfl⟩

theorem Passed.trans {env₁ env₂ env₃ : Env} (h₁ : Passed env₁ env₂) (h₂ : Passed env₂ env₃) :
    Passed env₁ env₃ := by
  obtain ⟨token₁, rfl⟩ := h₁
  obtain ⟨token₂, rfl⟩ := h₂
  exact ⟨token₂, rfl⟩

/-! ## Designators -/

theorem Index.lower_ensures (i : Index) (env : Env) :
    i.lower.Ensures env fun _ code env' => code = [] ∧ Passed env env' := by
  simp only [Index.lower, ensures_bind, ensures_consume, ensures_terminal]
  intro number _ closing _
  exact ⟨rfl, closing, rfl⟩

theorem lowerIndices_ensures (indices : List Index) (env : Env) :
    (lowerIndices indices).Ensures env fun _ code env' => code = [] ∧ Passed env env' := by
  induction indices generalizing env with
  | nil =>
    rw [lowerIndices, ensures_pure]
    exact ⟨rfl, Passed.refl env⟩
  | cons i indices ih =>
    simp only [lowerIndices, ensures_bind]
    refine (i.lower_ensures env).mono ?_
    rintro _ code env₁ ⟨rfl, hpassed₁⟩
    refine (ih env₁).mono ?_
    rintro _ code env₂ ⟨rfl, hpassed₂⟩
    exact ⟨rfl, hpassed₁.trans hpassed₂⟩

theorem Terminal.value?_read (token : Token) : (Terminal.read token).value? = some token.value :=
  rfl

theorem Terminal.valueD_read (token : Token) : (Terminal.read token).valueD = token.value := rfl

theorem lowerMemberRefs_ensures (members : List MemberRef) (env : Env) :
    (lowerMemberRefs members).Ensures env fun _ code env' =>
      (∃ text, Designator.membersText? members = some text) ∧ code = [] ∧ Passed env env' := by
  induction members generalizing env with
  | nil =>
    rw [lowerMemberRefs, ensures_pure]
    exact ⟨⟨"", rfl⟩, rfl, Passed.refl env⟩
  | cons m members ih =>
    simp only [lowerMemberRefs, ensures_bind, ensures_consume, ensures_terminal]
    intro name hname
    refine (lowerIndices_ensures m.indices _).mono ?_
    rintro _ code env₁ ⟨rfl, token₁, rfl⟩
    refine (ih _).mono ?_
    rintro _ code env₂ ⟨⟨text, htext⟩, rfl, token₂, rfl⟩
    refine ⟨?_, rfl, token₂, rfl⟩
    simp only [Designator.membersText?, hname, Terminal.value?_read, htext]
    exact ⟨_, rfl⟩

theorem Designator.lower_ensures (d : Designator) (env : Env) :
    d.lower.Ensures env fun name code env' =>
      (∃ text, d.name? = some text ∧ name = some text) ∧ code = [] ∧ Passed env env' := by
  simp only [Designator.lower, ensures_bind, ensures_terminal, ensures_pure]
  intro head hhead
  refine (lowerIndices_ensures d.indices _).mono ?_
  rintro _ code env₁ ⟨rfl, token₁, rfl⟩
  refine (lowerMemberRefs_ensures d.members _).mono ?_
  rintro _ code env₂ ⟨⟨text, htext⟩, rfl, token₂, rfl⟩
  have hname : ∃ text, d.name? = some text := by
    simp only [Designator.name?, hhead, Terminal.value?_read, htext]
    exact ⟨_, rfl⟩
  obtain ⟨text, hname⟩ := hname
  exact ⟨⟨text, hname, hname⟩, rfl, token₂, rfl⟩

theorem Designator.lowerTarget_ensures (d : Designator) (env : Env) :
    d.lowerTarget.Ensures env fun found code env' =>
      (∃ target, (d.use env.scopes).target? = some target ∧ found = some target) ∧
        code = [] ∧ Passed env env' := by
  simp only [Designator.lowerTarget, ensures_bind]
  refine (d.lower_ensures env).mono ?_
  rintro name code env₁ ⟨⟨text, hname, rfl⟩, rfl, token, rfl⟩
  simp only [ensures_resolve]
  intro target htarget
  refine ⟨⟨target, ?_, rfl⟩, rfl, token, rfl⟩
  simpa [Designator.use, Use.target?, hname] using htarget

/-! ## Expressions -/

theorem Use.cell_eq {u : Use} {target : Resolved} (h : u.target? = some target) :
    u.cell = target.cell (u.scopes.dataLevel target.symbol) := by
  simp [Use.cell, h]

theorem Emitted.load_instruction {u : Use} {target : Resolved} (h : u.target? = some target) :
    (Emitted.load u).instruction =
      .plain (target.loadOp (u.scopes.dataLevel target.symbol)) := by
  simp [Emitted.load, Use.cell_eq h, Resolved.loadOp_eq]

theorem Emitted.store_instruction {u : Use} {target : Resolved} (h : u.target? = some target) :
    (Emitted.store u).instruction =
      .plain (target.storeOp (u.scopes.dataLevel target.symbol)) := by
  simp [Emitted.store, Use.cell_eq h, Resolved.storeOp_eq]

namespace Expr

/-- What an expression ensures: it changes nothing, and its code computes a value of its type. -/
def Computes (x : Lowering Ty) (env : Env) (t : Term) : Prop :=
  x.Ensures env fun ty code env' => t.HasType ty ∧ code = erase t.code ∧ Passed env env'

theorem lowerNumber_computes (token : Token) (env : Env) :
    Computes (lowerNumber token) env (.number ((Text.integer? token.value).getD 0)) := by
  unfold Computes
  simp only [lowerNumber, ensures_bind, ensures_consume]
  cases hvalue : Text.integer? token.value with
  | none => simp
  | some value =>
    simp only [ensures_bind, ensures_emit, ensures_pure]
    exact ⟨.number value, rfl, token, rfl⟩

theorem lowerBoolean_computes (token : Token) (env : Env) :
    Computes (lowerBoolean token) env (.boolean (token.kind = .kwTrue)) := by
  unfold Computes
  simp only [lowerBoolean, ensures_bind, ensures_consume, ensures_emit, ensures_pure]
  refine ⟨.boolean _, ?_, token, rfl⟩
  simp [Term.code]

theorem lowerDesignator_computes (d : Designator) (env : Env) :
    Computes (lowerDesignator d) env (.use (d.use env.scopes)) := by
  unfold Computes
  simp only [lowerDesignator, ensures_bind]
  refine (d.lowerTarget_ensures env).mono ?_
  rintro found code env₁ ⟨⟨target, htarget, rfl⟩, rfl, token, rfl⟩
  simp only [Typing.loadable]
  split
  next ty hloadable =>
    simp only [ensures_bind, ensures_load, ensures_pure]
    split at hloadable
    next hstorage =>
      cases hloadable
      refine ⟨.use hstorage ⟨target, htarget, rfl, rfl⟩, ?_, token, rfl⟩
      simp [Term.code, Emitted.load_instruction htarget]
    next => simp at hloadable
  next => simp

theorem lowerNegation_computes {operand : Lowering Ty} {t : Term} (minus : Token) (env : Env)
    (h : Computes operand { env with last := minus } t) :
    Computes (lowerNegation minus operand) env (.negation t) := by
  unfold Computes at h ⊢
  simp only [lowerNegation, ensures_bind, ensures_consume]
  refine h.mono ?_
  rintro ty code env₁ ⟨hty, rfl, token, rfl⟩
  simp only [Typing.negation, ensures_check, ensures_emit, ensures_pure]
  intro result hrule
  split at hrule
  next hint =>
    subst hint
    refine ⟨.negation hty, ?_, token, rfl⟩
    simp [Term.code]
  next => simp at hrule

theorem lowerGrouping_computes {inner : Lowering Ty} {t : Term} (opening : Token)
    (closing : Terminal) (env : Env) (h : Computes inner { env with last := opening } t) :
    Computes (lowerGrouping opening inner closing) env t := by
  unfold Computes at h ⊢
  simp only [lowerGrouping, ensures_bind, ensures_consume]
  refine h.mono ?_
  rintro ty code env₁ ⟨hty, rfl, token, rfl⟩
  simp only [ensures_terminal, ensures_pure]
  intro token' _
  exact ⟨hty, by simp, token', rfl⟩

theorem lowerRelational_computes {left : Ty} {right : Lowering Ty} {l r : Term} (op : Token)
    (env : Env) (hleft : l.HasType left) (h : Computes right { env with last := op } r) :
    (lowerRelational left op right).Ensures env fun ty code env' =>
      (Term.comparison (.ofKind op.kind) l r).HasType ty ∧
        code = erase (r.code ++ [.plain (.compare (.ofKind op.kind))]) ∧ Passed env env' := by
  unfold Computes at h
  simp only [lowerRelational, ensures_bind, ensures_consume]
  refine h.mono ?_
  rintro ty code env₁ ⟨hty, rfl, token, rfl⟩
  simp only [Typing.relational]
  split
  next result hrule =>
    split at hrule
    next hsame =>
      cases hrule
      subst hsame
      simp only [ensures_bind, ensures_emit, ensures_pure]
      refine ⟨.comparison hleft hty, ?_, token, rfl⟩
      simp
    next => simp at hrule
  next => simp

theorem lowerArithmetic_computes {left : Ty} {right : Lowering Ty} {l r : Term} (op : Token)
    (env : Env) (hleft : l.HasType left) (h : Computes right { env with last := op } r) :
    (lowerArithmetic left op right).Ensures env fun ty code env' =>
      (Term.arithmetic (.ofKind op.kind) l r).HasType ty ∧
        code = erase (r.code ++ [.plain (.arith (.ofKind op.kind))]) ∧ Passed env env' := by
  unfold Computes at h
  simp only [lowerArithmetic, ensures_bind, ensures_consume]
  refine h.mono ?_
  rintro ty code env₁ ⟨hty, rfl, token, rfl⟩
  simp only [Typing.arithmetic, ensures_check, ensures_emit, ensures_pure]
  intro result hrule
  split at hrule
  next hint =>
    obtain ⟨rfl, rfl⟩ := hint
    refine ⟨.arithmetic hleft hty, ?_, token, rfl⟩
    simp
  next => simp at hrule

/-- An expression computes its term. -/
theorem lower_computes (e : Expr) (env : Env) : Computes e.lower env (e.term env.scopes) := by
  induction e generalizing env with
  | missing next =>
    unfold Computes
    simp [lower]
  | number token => exact lowerNumber_computes token env
  | boolean token => exact lowerBoolean_computes token env
  | designator d => exact lowerDesignator_computes d env
  | negation minus operand ih => exact lowerNegation_computes minus env (ih _)
  | grouping opening inner closing ih => exact lowerGrouping_computes opening closing env (ih _)
  | relational left op right ihLeft ihRight =>
    unfold Computes
    simp only [lower, ensures_bind]
    refine (ihLeft env).mono ?_
    rintro ty code env₁ ⟨hty, rfl, token, rfl⟩
    refine (lowerRelational_computes op _ hty (ihRight _)).mono ?_
    rintro ty' code env₂ ⟨hty', rfl, token', rfl⟩
    exact ⟨hty', by simp [term, Term.code], token', rfl⟩
  | arithmetic left op right ihLeft ihRight =>
    unfold Computes
    simp only [lower, ensures_bind]
    refine (ihLeft env).mono ?_
    rintro ty code env₁ ⟨hty, rfl, token, rfl⟩
    refine (lowerArithmetic_computes op _ hty (ihRight _)).mono ?_
    rintro ty' code env₂ ⟨hty', rfl, token', rfl⟩
    exact ⟨hty', by simp [term, Term.code], token', rfl⟩

end Expr

/-! ## Lists with separators -/

section Separated

variable {α β : Type} {f : α → Lowering β}
  {R : List α → Env → List β → List Instruction → Env → Prop}

/-- A relation between items and what lowering makes of them holds of a whole list if it holds of the
empty one, grows by an item at the front, and takes no notice of separators. -/
theorem Separated.ensures_lower (hnil : ∀ env, R [] env [] [] env)
    (hcons : ∀ a more env, (f a).Ensures env fun b code env₁ =>
      ∀ bs code' env', R more env₁ bs code' env' → R (a :: more) env (b :: bs) (code ++ code') env')
    (hlast : ∀ items env token bs code env',
      R items { env with last := token } bs code env' → R items env bs code env')
    (items : Separated α) (env : Env) : (items.lower f).Ensures env (R items.toList env) := by
  have hothers : ∀ (others : List (Token × α)) (env : Env),
      (lower.lowerOthers f others).Ensures env (R (others.map (·.2)) env) := by
    intro others
    induction others with
    | nil =>
      intro env
      rw [lower.lowerOthers, ensures_pure]
      exact hnil env
    | cons item others ih =>
      intro env
      simp only [lower.lowerOthers, ensures_bind, ensures_consume, ensures_pure]
      refine (hcons item.2 (others.map (·.2)) { env with last := item.1 }).mono ?_
      intro b code env₁ hgrow
      refine (ih env₁).mono ?_
      intro bs code' env₂ hrest
      simpa using hlast _ _ _ _ _ _ (hgrow bs code' env₂ hrest)
  simp only [lower, ensures_bind, ensures_pure]
  refine (hcons items.first (items.others.map (·.2)) env).mono ?_
  intro b code env₁ hgrow
  refine (hothers items.others env₁).mono ?_
  intro bs code' env₂ hrest
  simpa [toList] using hgrow bs code' env₂ hrest

theorem Separated.ensures_lower? (hnil : ∀ env, R [] env [] [] env)
    (hcons : ∀ a more env, (f a).Ensures env fun b code env₁ =>
      ∀ bs code' env', R more env₁ bs code' env' → R (a :: more) env (b :: bs) (code ++ code') env')
    (hlast : ∀ items env token bs code env',
      R items { env with last := token } bs code env' → R items env bs code env')
    (items : Option (Separated α)) (env : Env) :
    (lower? items f).Ensures env (R (toList? items) env) := by
  cases items with
  | none =>
    rw [lower?, ensures_pure]
    exact hnil env
  | some items => exact Separated.ensures_lower hnil hcons hlast items env

end Separated

/-- The arguments of a call compute their terms, one after the other. -/
theorem lowerArguments_ensures (arguments : Option (Separated Expr)) (env : Env) :
    (Separated.lower? arguments Expr.lower).Ensures env fun types code env' =>
      List.Forall₂ Term.HasType ((Separated.toList? arguments).map (Expr.term env.scopes)) types ∧
        code = erase (((Separated.toList? arguments).map (Expr.term env.scopes)).flatMap Term.code) ∧
        Passed env env' := by
  refine Separated.ensures_lower?
    (R := fun items env types code env' =>
      List.Forall₂ Term.HasType (items.map (Expr.term env.scopes)) types ∧
        code = erase ((items.map (Expr.term env.scopes)).flatMap Term.code) ∧ Passed env env')
    ?_ ?_ ?_ arguments env
  · intro env
    exact ⟨.nil, rfl, Passed.refl env⟩
  · intro e more env
    refine (e.lower_computes env).mono ?_
    rintro ty code env₁ ⟨hty, rfl, token, rfl⟩
    rintro types code' env' ⟨htypes, rfl, hpassed⟩
    exact ⟨.cons hty htypes, by simp, Passed.trans ⟨token, rfl⟩ hpassed⟩
  · rintro items env token types code env' ⟨htypes, hcode, hpassed⟩
    exact ⟨htypes, hcode, Passed.trans ⟨token, rfl⟩ hpassed⟩

/-! ## Realized elaborations -/

/-- Code and environment are those of an elaborated phrase: it goes from the meaning `st` of names to
the meaning `final`, draws labels from the number `n` on, and satisfies the typing rules. -/
structure Realized (st final : Static) (n labels : Nat) (emitted : List Emitted) (typed : Prop)
    (code : List Instruction) (env' : Env) : Prop where
  static : env'.static = final
  labels : env'.nextLabel = n + labels
  code : code = erase emitted
  typed : typed
  scalar : st.Scalar → final.Scalar

theorem Realized.append {st st₁ st₂ : Static} {n labels₁ labels₂ : Nat}
    {emitted₁ emitted₂ : List Emitted} {typed₁ typed₂ : Prop} {code₁ code₂ : List Instruction}
    {env₁ env₂ : Env} (h₁ : Realized st st₁ n labels₁ emitted₁ typed₁ code₁ env₁)
    (h₂ : Realized st₁ st₂ (n + labels₁) labels₂ emitted₂ typed₂ code₂ env₂) :
    Realized st st₂ n (labels₁ + labels₂) (emitted₁ ++ emitted₂) (typed₁ ∧ typed₂)
      (code₁ ++ code₂) env₂ where
  static := h₂.static
  labels := by rw [h₂.labels, Nat.add_assoc]
  code := by rw [h₁.code, h₂.code, erase_append]
  typed := ⟨h₁.typed, h₂.typed⟩
  scalar hscalar := h₂.scalar (h₁.scalar hscalar)

/-- A token behind a phrase adds nothing to its code. -/
theorem Realized.past {st final : Static} {n labels : Nat} {emitted : List Emitted} {typed : Prop}
    {code : List Instruction} {env' : Env} (h : Realized st final n labels emitted typed code env')
    (token : Token) :
    Realized st final n labels emitted typed (code ++ []) { env' with last := token } :=
  ⟨h.static, h.labels, (List.append_nil code).trans h.code, h.typed, h.scalar⟩

abbrev RealizedAction (st : Static) (n : Nat) (meaning : Action × Static) :
    List Instruction → Env → Prop :=
  Realized st meaning.2 n meaning.1.labels (meaning.1.code n) meaning.1.WellTyped

/-- What a phrase produces depends on the environment only by the meaning of names and the next
label. -/
def Produces (x : Lowering Unit) (outcome : Static → Nat → List Instruction → Env → Prop) : Prop :=
  ∀ env, x.Ensures env fun _ => outcome env.static env.nextLabel

theorem Produces.ensures {x : Lowering Unit} {outcome : Static → Nat → List Instruction → Env → Prop}
    (h : Produces x outcome) {env : Env} {post : Unit → List Instruction → Env → Prop}
    (st : Static) (n : Nat) (hstatic : env.static = st) (hlabel : env.nextLabel = n)
    (hpost : ∀ code env', outcome st n code env' → post () code env') : x.Ensures env post := by
  subst hstatic hlabel
  exact (h env).mono fun _ => hpost

abbrev Realizes (x : Lowering Unit) (meaning : Static → Action × Static) : Prop :=
  Produces x fun st n => RealizedAction st n (meaning st)

theorem RealizedAction.skip {st : Static} {n : Nat} {env' : Env} (hstatic : env'.static = st)
    (hlabel : env'.nextLabel = n) : RealizedAction st n (.skip, st) [] env' where
  static := hstatic
  labels := by simpa [Action.labels] using hlabel
  code := by simp [Action.code]
  typed := trivial
  scalar := id

theorem RealizedAction.seq {st st₁ st₂ : Static} {n : Nat} {first second : Action}
    {code₁ code₂ : List Instruction} {env₁ env₂ : Env}
    (h₁ : RealizedAction st n (first, st₁) code₁ env₁)
    (h₂ : RealizedAction st₁ env₁.nextLabel (second, st₂) code₂ env₂) :
    RealizedAction st n (.seq first second, st₂) (code₁ ++ code₂) env₂ := by
  rw [h₁.labels] at h₂
  exact h₁.append h₂

theorem Realizes.pure : Realizes (Pure.pure ()) fun st => (.skip, st) := by
  intro env
  rw [ensures_pure]
  exact RealizedAction.skip rfl rfl

theorem Realizes.bind {x y : Lowering Unit} {X Y : Static → Action × Static}
    (hx : Realizes x X) (hy : Realizes y Y) :
    Realizes (do x; y) fun st => (.seq (X st).1 (Y (X st).2).1, (Y (X st).2).2) := by
  intro env
  simp only [ensures_bind]
  refine (hx env).mono ?_
  intro _ code env₁ h₁
  refine hy.ensures _ _ h₁.static rfl ?_
  intro code' env₂ h₂
  exact h₁.seq h₂

theorem realizes_separated {α : Type} {f : α → Lowering Unit} {g : α → Static → Action × Static}
    (h : ∀ a, Realizes (f a) (g a)) (items : Separated α) (env : Env) :
    (items.lower f).Ensures env fun _ code env' =>
      RealizedAction env.static env.nextLabel (elaborateAll g items.toList env.static) code env' := by
  refine Separated.ensures_lower
    (R := fun items env _ code env' =>
      RealizedAction env.static env.nextLabel (elaborateAll g items env.static) code env')
    ?_ ?_ ?_ items env
  · intro env
    exact RealizedAction.skip rfl rfl
  · intro a more env
    refine (h a env).mono ?_
    intro _ code env₁ h₁ _ code' env' h₂
    rw [h₁.static] at h₂
    exact h₁.seq h₂
  · intro items env token _ code env' hrealized
    exact hrealized

/-! ## Declarations -/

theorem ScalarSpec.lower_ensures (s : ScalarSpec) (env : Env) :
    s.lower.Ensures env fun ty code env' =>
      ty = s.ty ∧ ty.IsScalar ∧ code = [] ∧ Passed env env' := by
  cases s with
  | missing next => simp [ScalarSpec.lower]
  | read token =>
    simp only [ScalarSpec.lower, ensures_bind, ensures_consume]
    rw [ensures_pure]
    refine ⟨rfl, ?_, rfl, token, rfl⟩
    by_cases hkind : token.kind = .kwInt <;> simp [ScalarSpec.ty, Ty.IsScalar, hkind]

/-- A type that was read without a fault is a struct or a scalar. -/
def DeclaredTy.Proper : DeclaredTy → Prop
  | .scalar ty => ty.IsScalar
  | .struct _ => True

theorem TypeSpec.lower_ensures (spec : TypeSpec) (env : Env) :
    spec.lower.Ensures env fun ty code env' =>
      ty = spec.declared ∧ ty.Proper ∧ code = [] ∧ Passed env env' := by
  cases spec with
  | scalar s =>
    simp only [TypeSpec.lower, ensures_bind, ensures_pure]
    refine (s.lower_ensures env).mono ?_
    rintro ty code env' ⟨rfl, hscalar, rfl, hpassed⟩
    exact ⟨rfl, hscalar, rfl, hpassed⟩
  | struct keyword name =>
    simp only [TypeSpec.lower, ensures_bind, ensures_consume, ensures_terminal, ensures_pure]
    intro token _
    exact ⟨rfl, trivial, rfl, token, rfl⟩

theorem lowerBounds_ensures (indices : List Index) (env : Env) :
    (lowerBounds indices).Ensures env fun bounds code env' =>
      bounds = indices.map Index.bound ∧ code = [] ∧ Passed env env' := by
  induction indices generalizing env with
  | nil =>
    rw [lowerBounds, ensures_pure]
    exact ⟨rfl, rfl, Passed.refl env⟩
  | cons i indices ih =>
    simp only [lowerBounds, ensures_bind, ensures_consume, ensures_terminal]
    intro number hnumber
    simp only [hnumber]
    split
    next n hn =>
      simp only [ensures_pure, ensures_terminal, ensures_bind]
      intro closing _
      refine (ih _).mono ?_
      rintro bounds code env₁ ⟨rfl, rfl, token, rfl⟩
      refine ⟨?_, rfl, token, rfl⟩
      have hbound : i.bound = n := by
        simp [Index.bound, hnumber, Terminal.value?_read, hn]
      simp [hbound]
    next => simp

theorem mem_structs_of_get? {structs : StructTable} {name : String} {d : StructDef}
    (h : structs.get? name = some d) : d ∈ structs.defs :=
  List.mem_of_find?_eq_some h

theorem DeclaredTy.members_scalar {ty : DeclaredTy} (hty : ty.Proper) {st : Static}
    (hst : st.Scalar) (names : List String) :
    ∀ m ∈ ty.members st.structs names, m.ty.IsScalar := by
  cases ty with
  | scalar ty =>
    intro m hm
    obtain ⟨name, -, rfl⟩ := List.mem_map.mp hm
    exact hty
  | struct structName =>
    intro m hm
    simp only [DeclaredTy.members] at hm
    split at hm
    next d hd =>
      obtain ⟨name, -, hm⟩ := List.mem_flatMap.mp hm
      obtain ⟨inner, hinner, rfl⟩ := List.mem_map.mp hm
      exact hst.members d (mem_structs_of_get? hd) inner hinner
    next => simp at hm

/-- The elements that a faultless declaration finds are all elements of its bounds. -/
theorem flatten_eq_some {name : String} {bounds : List Nat} {width : Nat} {names : List String}
    (h : flatten name bounds width = some names) : names = allElements name bounds := by
  unfold flatten elements? at h
  split at h
  next found hfound =>
    split at h
    · simp at h
    · split at hfound
      · cases hfound
        cases h
        rfl
      · simp at hfound
  next => simp at h

theorem variableElements_ensures (name : String) (ty : DeclaredTy) (bounds : List Nat)
    (env : Env) :
    (variableElements name ty bounds).Ensures env fun names code env' =>
      names = some (allElements name bounds) ∧ code = [] ∧ env'.static = env.static ∧
        env'.nextLabel = env.nextLabel := by
  unfold variableElements
  split
  next hempty =>
    rw [ensures_pure]
    have hnil : bounds = [] := List.isEmpty_iff.mp hempty
    subst hnil
    exact ⟨rfl, rfl, rfl, rfl⟩
  next =>
    simp only [registerArray, ensures_bind, ensures_env]
    split
    · simp
    · simp only [ensures_modifyEnv]
      split
      next names hnames =>
        rw [ensures_pure, flatten_eq_some hnames]
        exact ⟨rfl, rfl, rfl, rfl⟩
      next => simp

/-- A change of the scopes without code. -/
theorem RealizedAction.declare {st : Static} {n : Nat} {env₁ : Env} {scopes : ScopeStack}
    (hstatic : env₁.static = st) (hlabel : env₁.nextLabel = n)
    (hscalar : st.Scalar → scopes.Every Symbol.Scalar) :
    RealizedAction st n (.skip, { st with scopes := scopes }) [] { env₁ with scopes := scopes } where
  static := by
    subst hstatic
    rfl
  labels := by simpa [Action.labels] using hlabel
  code := by simp [Action.code]
  typed := trivial
  scalar h := ⟨hscalar h, h.members⟩

theorem declareVariable_ensures (name : String) {ty : DeclaredTy} (hty : ty.Proper)
    (bounds : List Nat) (env : Env) :
    (declareVariable name ty bounds).Ensures env fun _ code env' =>
      RealizedAction env.static env.nextLabel (.skip, { env.static with
        scopes := env.scopes.declareAll
          (ty.members env.structs (allElements name bounds)) }) code env' := by
  simp only [declareVariable, ensures_bind]
  refine (variableElements_ensures name ty bounds env).mono ?_
  rintro names code env₁ ⟨rfl, rfl, hstatic, hlabel⟩
  have hscopes : env₁.scopes = env.scopes := congrArg Static.scopes hstatic
  have hstructs : env₁.structs = env.structs := congrArg Static.structs hstatic
  have hscalar := fun h : env.static.Scalar =>
    h.symbols.declareAll (DeclaredTy.members_scalar hty h (allElements name bounds))
  cases ty with
  | scalar ty =>
    simp only [declareMembers, ensures_modifyEnv, hscopes]
    exact RealizedAction.declare hstatic hlabel hscalar
  | struct structName =>
    simp only [ensures_bind, ensures_env, hstructs]
    split
    next => simp
    next d hd =>
      split
      · simp
      · simp only [declareMembers, ensures_modifyEnv, hscopes]
        simp only [DeclaredTy.members, Env.static, hd] at hscalar ⊢
        exact RealizedAction.declare hstatic hlabel hscalar

theorem Declarator.lower_realizes {ty : DeclaredTy} (hty : ty.Proper) (d : Declarator) :
    Realizes (d.lower ty) (d.elaborate ty) := by
  intro env
  simp only [Declarator.lower, ensures_bind, ensures_terminal]
  intro name hname
  refine (lowerBounds_ensures d.bounds _).mono ?_
  rintro bounds code env₁ ⟨rfl, rfl, token, rfl⟩
  simp only [hname, Terminal.value?_read]
  refine (declareVariable_ensures name.value hty _ _).mono ?_
  intro _ code env₂ h
  have hvalue : d.name.valueD = name.value := by
    rw [hname, Terminal.valueD_read]
  simp only [Declarator.elaborate, hvalue]
  exact h

/-- A symbol that was just declared is the one that its name denotes. -/
theorem ScopeStack.resolve_declareStorage (st : ScopeStack) (name : String) (kind : SymbolKind)
    (ty : Ty) :
    (st.declareStorage name kind ty).2.resolve name =
      some ⟨(st.declareStorage name kind ty).1, false⟩ := by
  obtain ⟨scopes, externals, procedures⟩ := st
  match scopes with
  | [] =>
    simp [declareStorage, depth, declareGlobal, ensureScope, openScope, pushLast, resolve,
      Scope.lookup, Scope.push]
  | [scope] =>
    simp [declareStorage, depth, declareGlobal, ensureScope, pushLast, resolve, Scope.lookup,
      Scope.push]
  | scope :: next :: outer =>
    simp [declareStorage, depth, declareLocal, ensureScope, pushCurrent, resolve, Scope.lookup,
      Scope.push]

theorem ScopeStack.declareStorage_kind (st : ScopeStack) (name : String) (kind : SymbolKind)
    (ty : Ty) : (st.declareStorage name kind ty).1.kind = kind := by
  unfold ScopeStack.declareStorage
  split <;> rfl

theorem ConstEntry.lower_realizes (entry : ConstEntry) : Realizes entry.lower entry.elaborate := by
  intro env
  simp only [ConstEntry.lower, ensures_bind]
  refine (entry.ty.lower_ensures env).mono ?_
  rintro ty code env₁ ⟨rfl, hscalar, rfl, token₁, rfl⟩
  simp only [ensures_terminal]
  intro name hname
  cases hvalue : entry.value with
  | none =>
    simp only [hname, Terminal.value?_read, ensures_pure, ConstEntry.elaborate, hvalue]
    exact RealizedAction.skip rfl rfl
  | some pair =>
    obtain ⟨becomes, value⟩ := pair
    simp only [hname, Terminal.value?_read, ensures_bind, ensures_withScopes, ensures_terminal]
    intro token₂ _
    refine (value.lower_computes _).mono ?_
    rintro valueTy code env₂ ⟨hty, rfl, token₃, rfl⟩
    simp only [Typing.assignment, Typing.require, ensures_check, ensures_store]
    intro _ hrule
    split at hrule
    next hsame =>
      have hsame : entry.ty.ty = valueTy := by simpa using hsame
      subst hsame
      -- The store goes to the symbol of the declaration, and the name denotes just that one.
      have htarget :
          (Use.mk name.value
            (env.scopes.declareStorage name.value .const entry.ty.ty).2).target? =
          some ⟨(env.scopes.declareStorage name.value .const entry.ty.ty).1, false⟩ :=
        ScopeStack.resolve_declareStorage env.scopes name.value .const entry.ty.ty
      have helaborate : entry.elaborate env.static =
          (.store .const ⟨name.value,
              (env.scopes.declareStorage name.value .const entry.ty.ty).2⟩
            (value.term (env.scopes.declareStorage name.value .const entry.ty.ty).2),
            { env.static with
              scopes := (env.scopes.declareStorage name.value .const entry.ty.ty).2 }) := by
        simp [ConstEntry.elaborate, hname, Terminal.value?_read, hvalue, Env.static]
      rw [helaborate]
      refine ⟨rfl, rfl, ?_, ?_, ?_⟩
      · simp [Action.code, Emitted.store_instruction htarget]
      · refine ⟨entry.ty.ty, rfl, ⟨_, htarget, ?_, ?_⟩, hty⟩
        · exact ScopeStack.declareStorage_kind env.scopes name.value .const entry.ty.ty
        · exact ScopeStack.declareStorage_ty env.scopes name.value .const entry.ty.ty
      · intro h
        refine ⟨h.symbols.declareStorage ?_, h.members⟩
        intro _
        rw [ScopeStack.declareStorage_ty]
        exact hscalar
    next => simp at hrule

theorem addMembers_add_ensures {d : StructDef} {name : String} {bounds : List Nat} {width : Nat}
    {expand : List String → List Member} (env : Env) :
    (addMembers.add d name bounds width expand).Ensures env fun d' code env' =>
      d' = { d with members := d.members ++ expand (allElements name bounds) } ∧ code = [] ∧
        env' = env := by
  unfold addMembers.add
  split
  next => simp
  next paths hpaths =>
    split
    · simp
    · rw [ensures_pure]
      have hall : paths = allElements name bounds := by
        split at hpaths
        next hempty =>
          cases hpaths
          rw [List.isEmpty_iff.mp hempty]
          rfl
        next => exact flatten_eq_some hpaths
      rw [hall]
      exact ⟨rfl, rfl, rfl⟩

theorem addMembers_ensures (d : StructDef) (name : String) (ty : DeclaredTy) (bounds : List Nat)
    (env : Env) :
    (addMembers d name ty bounds).Ensures env fun d' code env' =>
      d' = { d with
        members := d.members ++ ty.members env.structs (allElements name bounds) } ∧
        code = [] ∧ env' = env := by
  cases ty with
  | scalar ty => exact addMembers_add_ensures env
  | struct structName =>
    simp only [addMembers, ensures_bind, ensures_env]
    split
    next => simp
    next inner hinner =>
      simp only [DeclaredTy.members, hinner]
      exact addMembers_add_ensures env

theorem lowerStructItems_ensures (items : List StructItem) (d : StructDef) (env : Env) :
    (lowerStructItems d items).Ensures env fun d' code env' =>
      d' = { d with members := d.members ++ items.flatMap (StructItem.members env.structs) } ∧
        (env.static.Scalar →
          ∀ m ∈ items.flatMap (StructItem.members env.structs), m.ty.IsScalar) ∧
        code = [] ∧ Passed env env' := by
  induction items generalizing d env with
  | nil =>
    rw [lowerStructItems, ensures_pure]
    exact ⟨by simp, by simp, rfl, Passed.refl env⟩
  | cons item items ih =>
    cases item with
    | skipped token => simp [lowerStructItems]
    | member spec name bounds semicolon =>
      simp only [lowerStructItems, ensures_bind]
      refine (spec.lower_ensures env).mono ?_
      rintro ty code env₁ ⟨rfl, hproper, rfl, token₁, rfl⟩
      simp only [ensures_terminal]
      intro nameToken hname
      refine (lowerBounds_ensures bounds _).mono ?_
      rintro bounds' code env₂ ⟨rfl, rfl, token₂, rfl⟩
      intro token₃ _
      simp only [hname, Terminal.value?_read, ensures_bind]
      refine (addMembers_ensures d nameToken.value spec.declared _ _).mono ?_
      rintro d₁ code env₃ ⟨rfl, rfl, rfl⟩
      refine (ih _ _).mono ?_
      rintro d₂ code env₄ ⟨rfl, hscalar, rfl, token₄, rfl⟩
      refine ⟨?_, ?_, rfl, token₄, rfl⟩
      · simp [StructItem.members, Terminal.valueD_read, List.append_assoc]
      · intro h m hm
        rw [List.flatMap_cons] at hm
        rcases List.mem_append.mp hm with hm | hm
        · exact DeclaredTy.members_scalar hproper h _ m hm
        · exact hscalar h m hm

theorem lowerStructDef_realizes (keyword : Token) (name opening : Terminal)
    (items : List StructItem) (closing semicolon : Terminal) :
    Realizes (lowerStructDef keyword name opening items closing semicolon)
      (Declaration.structDef keyword name opening items closing semicolon).elaborate := by
  intro env
  simp only [lowerStructDef, ensures_bind, ensures_consume, ensures_terminal, ensures_env]
  intro nameToken hname
  split
  · simp
  · simp only [ensures_bind, ensures_terminal]
    intro openToken _
    refine (lowerStructItems_ensures items _ _).mono ?_
    rintro d code env₁ ⟨rfl, hscalar, rfl, token, rfl⟩
    simp only [ensures_modifyEnv]
    intro closeToken _ semicolonToken _
    refine ⟨by simp [Env.static, Declaration.elaborate, StructDef.new], rfl,
      by simp [Declaration.elaborate, Action.code], trivial, ?_⟩
    intro h
    refine ⟨h.symbols, ?_⟩
    intro d hd m hm
    simp only [Declaration.elaborate, StructTable.define] at hd
    split at hd
    · exact h.members d hd m hm
    · rcases List.mem_cons.mp hd with rfl | hd
      · exact hscalar h m hm
      · exact h.members d hd m hm

theorem Declaration.lower_realizes (d : Declaration) : Realizes d.lower d.elaborate := by
  cases d with
  | const keyword entries semicolon =>
    intro env
    simp only [Declaration.lower, ensures_bind, ensures_consume, ensures_discard]
    refine (realizes_separated ConstEntry.lower_realizes entries _).mono ?_
    intro _ code env₁ h
    simp only [ensures_terminal]
    intro token _
    exact h.past token
  | vars spec declarators semicolon =>
    intro env
    simp only [Declaration.lower, ensures_bind, ensures_discard]
    refine (spec.lower_ensures env).mono ?_
    rintro ty code env₁ ⟨rfl, hproper, rfl, token₁, rfl⟩
    refine (realizes_separated (Declarator.lower_realizes hproper) declarators _).mono ?_
    intro _ code env₁ h
    simp only [ensures_terminal]
    intro token _
    exact h.past token
  | structDef keyword name opening items closing semicolon =>
    exact lowerStructDef_realizes keyword name opening items closing semicolon

end SlotLang
