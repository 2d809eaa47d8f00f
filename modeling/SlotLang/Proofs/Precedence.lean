import SlotLang.Proofs.ExpressionGrammar
import SlotLang.Proofs.Flattening
import SlotLang.Proofs.LoweringCode
import SlotLang.Proofs.Outline
import SlotLang.Proofs.Paths

/-!
# Precedence

The textbook grammar of expressions has a stratum for each power: relations between sums, sums of
products, products of signed factors.  Reading with powers has no strata, only one loop and one
comparison.  It finds the trees of the textbook grammar all the same: in front of the tokens of such
a tree it takes just these tokens and gives the tree back, and lowering the tree gives its type and
its code in postfix order, or a fault.
-/

namespace SlotLang

open Lowering

/-! ## Strata -/

inductive Index.Whole : Index → Prop where
  | mk {opening number closing : Token} : opening.kind = .openBracket → number.kind = .number →
      closing.kind = .closeBracket → Whole ⟨opening, .read number, .read closing⟩

inductive MemberRef.Whole : MemberRef → Prop where
  | mk {dot name : Token} {indices : List Index} : dot.kind = .dot → name.kind = .identifier →
      (∀ i ∈ indices, i.Whole) → Whole ⟨dot, .read name, indices⟩

/-- No part of the designator is missing. -/
inductive Designator.Whole : Designator → Prop where
  | mk {name : Token} {indices : List Index} {members : List MemberRef} :
      name.kind = .identifier → (∀ i ∈ indices, i.Whole) → (∀ m ∈ members, m.Whole) →
      Whole ⟨.read name, indices, members⟩

namespace Expr

/-- The trees of the textbook grammar.  The operands of an operator are of its own stratum on the
left and of the next tighter one on the right. -/
inductive Stratum : Power → Expr → Prop where
  | relation {left right : Expr} {op : Token} (hleft : Stratum .relational left)
      (hop : op.kind ∈ [.equals, .notEquals, .less, .lessEquals, .greater, .greaterEquals])
      (hright : Stratum .additive right) : Stratum .relational (.relational left op right)
  | sum {left right : Expr} {op : Token} (hleft : Stratum .additive left)
      (hop : op.kind ∈ [.plus, .dash]) (hright : Stratum .multiplicative right) :
      Stratum .additive (.arithmetic left op right)
  | product {left right : Expr} {op : Token} (hleft : Stratum .multiplicative left)
      (hop : op.kind ∈ [.star, .slash]) (hright : Stratum .unary right) :
      Stratum .multiplicative (.arithmetic left op right)
  | negation {minus : Token} {operand : Expr} (hminus : minus.kind = .dash)
      (h : Stratum .unary operand) : Stratum .unary (.negation minus operand)
  | grouping {opening closing : Token} {content : Expr} (hopening : opening.kind = .openParen)
      (h : Stratum .relational content) (hclosing : closing.kind = .closeParen) :
      Stratum .primary (.grouping opening content (.read closing))
  | number {token : Token} (h : token.kind = .number) : Stratum .primary (.number token)
  | boolean {token : Token} (h : token.kind ∈ [.kwTrue, .kwFalse]) :
      Stratum .primary (.boolean token)
  | designator {d : Designator} (h : d.Whole) : Stratum .primary (.designator d)
  | loosen {power looser : Power} {e : Expr} (h : Stratum power e)
      (hle : looser.rank ≤ power.rank) : Stratum looser e

/-- The power of the infix operator at the root. -/
def infixPower? : Expr → Option Power
  | relational _ _ _ => some .relational
  | arithmetic _ op _ =>
      some (if op.kind = .star ∨ op.kind = .slash then .multiplicative else .additive)
  | _ => none

/-- The last token belongs to a designator. -/
def endsInDesignator : Expr → Bool
  | designator _ => true
  | negation _ operand => operand.endsInDesignator
  | relational _ _ right | arithmetic _ _ right => right.endsInDesignator
  | missing _ | number _ | boolean _ | grouping _ _ _ => false

/-- The infix operators outside of parentheses bind tighter than the power. -/
def BindsAbove (e : Expr) (power : Power) : Prop :=
  ∀ p ∈ e.infixPower?, power.rank < p.rank

/-- A token of the kind cannot extend the expression when it is read with the power. -/
structure EndsBefore (e : Expr) (power : Power) (next : TokenKind) : Prop where
  operator : power.blocks next = true
  path : e.endsInDesignator = true → next.endsDesignator = true

namespace Stratum

theorem rank_le {power p : Power} {e : Expr} (h : Stratum power e)
    (hp : e.infixPower? = some p) : power.rank ≤ p.rank := by
  induction h with
  | relation | sum | product => grind [infixPower?]
  | loosen _ hle ih => exact Nat.le_trans hle (ih hp)
  | negation | grouping | number | boolean | designator => simp [infixPower?] at hp

theorem infixPower_eq_none {e : Expr} (h : Stratum .unary e) : e.infixPower? = none := by
  cases hp : e.infixPower? with
  | none => rfl
  | some p =>
    have hle := h.rank_le hp
    cases e <;> grind [infixPower?, Power.rank]

end Stratum
end Expr

theorem Power.blocks_of_le {power tighter : Power} {k : TokenKind} (h : power.blocks k = true)
    (hle : power.rank ≤ tighter.rank) : tighter.blocks k = true := by
  unfold Power.blocks at h ⊢
  cases hoperator : Grammar.full.operator? k with
  | none => rfl
  | some found =>
    simp only [hoperator, decide_eq_true_iff] at h ⊢
    exact Nat.le_trans h hle

/-- No operator binds as tight as a sign. -/
theorem Power.blocks_unary (k : TokenKind) : unary.blocks k = true := by
  cases k <;> rfl

theorem endsDesignator_of_operator {k : TokenKind} {found : Power × OperatorForm}
    (h : Grammar.full.operator? k = some found) : k.endsDesignator = true := by
  cases k <;> first | rfl | simp [Grammar.operator?] at h

namespace Expr

theorem tokens_operation (form : OperatorForm) (left : Expr) (op : Token) (right : Expr) :
    (operation form left op right).outline.tokens =
      left.outline.tokens ++ op :: right.outline.tokens := by
  cases form <;> simp [operation, outline, Outline.tokens_round]

theorem endsInDesignator_operation (form : OperatorForm) (left : Expr) (op : Token)
    (right : Expr) :
    (operation form left op right).endsInDesignator = right.endsInDesignator := by
  cases form <;> rfl

end Expr

/-! ## Reading -/

theorem Index.tokens_read (opening number closing : Token) :
    (Index.mk opening (.read number) (.read closing)).outline.tokens =
      [opening, number, closing] := rfl

theorem MemberRef.tokens_read (dot name : Token) (indices : List Index) :
    (MemberRef.mk dot (.read name) indices).outline.tokens =
      dot :: name :: indices.flatMap (·.outline.tokens) := by
  simp [MemberRef.outline, Terminal.outline, Outline.tokens_loop]

theorem Designator.tokens_read (name : Token) (indices : List Index) (members : List MemberRef) :
    (Designator.mk (.read name) indices members).outline.tokens =
      name :: (indices.flatMap (·.outline.tokens) ++ members.flatMap (·.outline.tokens)) := by
  simp [Designator.outline, Terminal.outline, Outline.tokens_loop]

namespace Window

variable {after : Window} {steps : Nat}

theorem readIndices_whole {indices : List Index} (h : ∀ i ∈ indices, i.Whole)
    (hstop : after.kind ≠ .openBracket)
    (hsteps : (indices.flatMap (·.outline.tokens)).length ≤ steps) :
    readIndices steps (prepend (indices.flatMap (·.outline.tokens)) after) = (indices, after) := by
  induction indices generalizing steps with
  | nil => cases steps <;> simp [readIndices, hstop]
  | cons i indices ih =>
    obtain ⟨hopening, hnumber, hclosing⟩ := h i (by simp)
    simp only [List.flatMap_cons, Index.tokens_read, List.cons_append, List.nil_append,
      List.length_cons] at hsteps ⊢
    obtain ⟨steps, rfl⟩ := Nat.exists_eq_add_one_of_ne_zero (by omega : steps ≠ 0)
    have hmore := ih (fun j hj => h j (by simp [hj])) (by omega : _ ≤ steps)
    simp [readIndices, hopening, expect_prepend hnumber, expect_prepend hclosing, hmore]

theorem readMembers_whole {members : List MemberRef} (h : ∀ m ∈ members, m.Whole)
    (hstop : after.kind.endsDesignator = true)
    (hsteps : (members.flatMap (·.outline.tokens)).length ≤ steps) :
    (prepend (members.flatMap (·.outline.tokens)) after).kind ≠ .openBracket ∧
      readMembers steps (prepend (members.flatMap (·.outline.tokens)) after) =
        (members, after) := by
  simp only [TokenKind.endsDesignator, Bool.and_eq_true, bne_iff_ne] at hstop
  induction members generalizing steps with
  | nil =>
    refine ⟨hstop.1, ?_⟩
    cases steps <;> simp [readMembers, hstop.2]
  | cons m members ih =>
    obtain ⟨hdot, hname, hindices⟩ := h m (by simp)
    simp only [List.flatMap_cons, MemberRef.tokens_read, List.cons_append, List.length_cons,
      List.length_append] at hsteps ⊢
    obtain ⟨steps, rfl⟩ := Nat.exists_eq_add_one_of_ne_zero (by omega : steps ≠ 0)
    obtain ⟨hbracket, hmore⟩ := ih (fun j hj => h j (by simp [hj])) (by omega : _ ≤ steps)
    have hread := readIndices_whole hindices hbracket (by omega : _ ≤ steps)
    refine ⟨by simp [hdot], ?_⟩
    simp [readMembers, hdot, expect_prepend hname, prepend_append, hread, hmore]

theorem readDesignator_whole {d : Designator} (h : d.Whole)
    (hstop : after.kind.endsDesignator = true) (hsteps : d.outline.tokens.length ≤ steps) :
    readDesignator steps (prepend d.outline.tokens after) = (d, after) := by
  obtain ⟨hname, hindices, hmembers⟩ := h
  simp only [Designator.tokens_read, List.length_cons, List.length_append] at hsteps ⊢
  obtain ⟨hbracket, hmore⟩ := readMembers_whole hmembers hstop (by omega : _ ≤ steps)
  have hread := readIndices_whole hindices hbracket (by omega : _ ≤ steps)
  simp [readDesignator, expect_prepend hname, prepend_append, hread, hmore]

theorem readOperators_of_blocks {power : Power} (h : power.blocks after.kind = true) (left : Expr) :
    readOperators .full steps power left after = (left, after) := by
  cases steps with
  | zero => rfl
  | succ steps =>
    unfold Power.blocks at h
    unfold readOperators
    split
    next => rfl
    next opPower form hoperator =>
      rw [hoperator, decide_eq_true_iff] at h
      rw [if_neg (by omega)]

/-- In front of the tokens of the tree, reading passes them and goes on with the tree as the left
operand, provided that the token behind them is not taken by one of its right operands. -/
def Reads (e : Expr) : Prop :=
  ∀ ⦃power : Power⦄ ⦃steps : Nat⦄ ⦃after : Window⦄, e.BindsAbove power →
    (∀ p ∈ e.infixPower?, p.blocks after.kind = true) →
    (e.endsInDesignator = true → after.kind.endsDesignator = true) →
    2 * e.outline.tokens.length ≤ steps →
    ∃ left, steps ≤ left + 2 * e.outline.tokens.length ∧
      readExpr .full steps power (prepend e.outline.tokens after) =
        readOperators .full left power e after

/-- A factor is read at once. -/
theorem Reads.factor {e : Expr} (form : FactorForm) {first : Token} {more : List Token}
    (htokens : e.outline.tokens = first :: more)
    (hform : Grammar.full.factorForm? first.kind = some form)
    (hread : ∀ ⦃steps : Nat⦄ ⦃after : Window⦄,
      (e.endsInDesignator = true → after.kind.endsDesignator = true) →
      2 * more.length + 1 ≤ steps →
      readFactor .full steps form (prepend (first :: more) after) = (e, after)) : Reads e := by
  intro power steps after _ _ hpath hsteps
  rw [htokens, List.length_cons] at hsteps
  obtain ⟨steps, rfl⟩ := Nat.exists_eq_add_one_of_ne_zero (by omega : steps ≠ 0)
  rw [htokens, List.length_cons]
  refine ⟨steps, by omega, ?_⟩
  rw [readExpr, kind_prepend_cons, hform]
  simp only [hread hpath (by omega : 2 * more.length + 1 ≤ steps)]

/-- The tree is read whole if the token behind it cannot extend it. -/
theorem Reads.readExpr_eq {e : Expr} (h : Reads e) {power : Power} (habove : e.BindsAbove power)
    (hend : e.EndsBefore power after.kind) (hsteps : 2 * e.outline.tokens.length ≤ steps) :
    readExpr .full steps power (prepend e.outline.tokens after) = (e, after) := by
  have hblocks : ∀ p ∈ e.infixPower?, p.blocks after.kind = true := fun p hp =>
    Power.blocks_of_le hend.operator (Nat.le_of_lt (habove p hp))
  obtain ⟨left, -, hread⟩ := h habove hblocks hend.path hsteps
  rw [hread, readOperators_of_blocks hend.operator]

/-- The left operand is followed by an operator that does not bind tighter than its own, and the
right operand is read with the power of the operator. -/
theorem Reads.operation {left right : Expr} {op : Token} {power : Power} {form : OperatorForm}
    (hop : Grammar.full.operator? op.kind = some (power, form)) (hleft : Reads left)
    (hright : Reads right) (hloose : ∀ p ∈ left.infixPower?, power.rank ≤ p.rank)
    (htight : right.BindsAbove power)
    (hroot : (Expr.operation form left op right).infixPower? = some power) :
    Reads (Expr.operation form left op right) := by
  intro outer steps after habove hstop hpath hsteps
  have hrank : outer.rank < power.rank := habove power hroot
  have hblocks : power.blocks after.kind = true := hstop power hroot
  rw [Expr.tokens_operation, List.length_append, List.length_cons] at hsteps
  rw [Expr.endsInDesignator_operation] at hpath
  rw [Expr.tokens_operation, prepend_append, List.length_append, List.length_cons]
  obtain ⟨others, hothers, hread⟩ := @hleft outer steps (prepend (op :: right.outline.tokens) after)
    (fun p hp => Nat.lt_of_lt_of_le hrank (hloose p hp))
    (fun p hp => by simpa [Power.blocks, hop] using hloose p hp)
    (fun _ => endsDesignator_of_operator hop) (by omega)
  obtain ⟨others, rfl⟩ := Nat.exists_eq_add_one_of_ne_zero (by omega : others ≠ 0)
  have hoperand := hright.readExpr_eq htight ⟨hblocks, hpath⟩ (by omega : _ ≤ others)
  refine ⟨others, by omega, ?_⟩
  rw [hread, readOperators, kind_prepend_cons, hop]
  simp only [if_pos hrank, advance_prepend_cons, ahead_prepend_cons, hoperand]

theorem Reads.of_stratum {power : Power} {e : Expr} (h : Expr.Stratum power e) : Reads e := by
  induction h with
  | loosen _ _ ih => exact ih
  | @relation left right op hl hop hr ihl ihr =>
    have hoperator : Grammar.full.operator? op.kind = some (.relational, .relational) := by
      simp only [List.mem_cons, List.not_mem_nil, or_false] at hop
      rcases hop with h | h | h | h | h | h <;> rw [h] <;> rfl
    exact .operation hoperator ihl ihr (fun p hp => hl.rank_le hp)
      (fun p hp => Nat.lt_of_lt_of_le (by decide) (hr.rank_le hp)) rfl
  | @sum left right op hl hop hr ihl ihr =>
    simp only [List.mem_cons, List.not_mem_nil, or_false] at hop
    have hoperator : Grammar.full.operator? op.kind = some (.additive, .arithmetic) := by
      rcases hop with h | h <;> rw [h] <;> rfl
    exact .operation hoperator ihl ihr (fun p hp => hl.rank_le hp)
      (fun p hp => Nat.lt_of_lt_of_le (by decide) (hr.rank_le hp))
      (by rcases hop with h | h <;> simp [Expr.operation, Expr.infixPower?, h])
  | @product left right op hl hop hr ihl ihr =>
    simp only [List.mem_cons, List.not_mem_nil, or_false] at hop
    have hoperator : Grammar.full.operator? op.kind = some (.multiplicative, .arithmetic) := by
      rcases hop with h | h <;> rw [h] <;> rfl
    exact .operation hoperator ihl ihr (fun p hp => hl.rank_le hp)
      (fun p hp => Nat.lt_of_lt_of_le (by decide) (hr.rank_le hp))
      (by rcases hop with h | h <;> simp [Expr.operation, Expr.infixPower?, h])
  | @negation minus operand hminus hs ih =>
    have htokens : (Expr.negation minus operand).outline.tokens =
        minus :: operand.outline.tokens := by
      simp [Expr.outline]
    refine .factor .negation htokens (by rw [hminus]; rfl) fun steps after hpath hsteps => ?_
    obtain ⟨steps, rfl⟩ := Nat.exists_eq_add_one_of_ne_zero (by omega : steps ≠ 0)
    have hread := ih.readExpr_eq (fun p hp => absurd hp (by simp [hs.infixPower_eq_none]))
      ⟨Power.blocks_unary after.kind, hpath⟩ (by omega : _ ≤ steps)
    simp only [readFactor, advance_prepend_cons, ahead_prepend_cons, hread]
  | @grouping opening closing content hopening hs hclosing ih =>
    have htokens : (Expr.grouping opening content (.read closing)).outline.tokens =
        opening :: (content.outline.tokens ++ [closing]) := by
      simp [Expr.outline, Terminal.outline]
    refine .factor .grouping htokens (by rw [hopening]; rfl) fun steps after _ hsteps => ?_
    rw [List.length_append, List.length_singleton] at hsteps
    obtain ⟨steps, rfl⟩ := Nat.exists_eq_add_one_of_ne_zero (by omega : steps ≠ 0)
    have hend : content.EndsBefore .lowest (prepend [closing] after).kind := by
      rw [kind_prepend_cons, hclosing]
      exact ⟨rfl, fun _ => rfl⟩
    have hread := ih.readExpr_eq (fun p hp => Nat.lt_of_lt_of_le (by decide) (hs.rank_le hp)) hend
      (by omega : _ ≤ steps)
    simp only [readFactor, advance_prepend_cons, ahead_prepend_cons, prepend_append, hread,
      expect_prepend hclosing, prepend_nil]
  | number h =>
    exact .factor .number rfl (by rw [h]; rfl) fun steps after _ _ => by
      simp [readFactor]
  | boolean h =>
    simp only [List.mem_cons, List.not_mem_nil, or_false] at h
    refine .factor .boolean rfl ?_ fun steps after _ _ => by simp [readFactor]
    rcases h with h | h <;> rw [h] <;> rfl
  | @designator d h =>
    obtain ⟨first, more, htokens, hkind⟩ : ∃ first more, d.outline.tokens = first :: more ∧
        first.kind = .identifier := by
      obtain ⟨hname, -, -⟩ := h
      exact ⟨_, _, Designator.tokens_read .., hname⟩
    refine .factor .designator htokens (by rw [hkind]; rfl)
      fun steps after hpath hsteps => ?_
    have hread := readDesignator_whole h (hpath rfl)
      (by rw [htokens, List.length_cons]; omega : _ ≤ steps)
    rw [htokens] at hread
    simp only [readFactor, hread]

end Window

/-! ## Types -/

namespace Expr

/-- The literals fit into a signed word, the names denote constants or variables, and the typing
rules of the operators hold. -/
inductive HasType (scopes : ScopeStack) : Expr → Ty → Prop where
  | number {token : Token} {value : Int} (h : Text.integer? token.value = some value) :
      HasType scopes (.number token) .int
  | boolean (token : Token) : HasType scopes (.boolean token) .bool
  | designator {d : Designator} {name : String} {target : Resolved} (hname : d.name? = some name)
      (htarget : scopes.resolve name = some target)
      (hkind : target.symbol.kind = .const ∨ target.symbol.kind = .var) :
      HasType scopes (.designator d) target.symbol.ty
  | negation {minus : Token} {operand : Expr} (h : HasType scopes operand .int) :
      HasType scopes (.negation minus operand) .int
  | grouping {opening : Token} {content : Expr} {closing : Terminal} {ty : Ty}
      (h : HasType scopes content ty) : HasType scopes (.grouping opening content closing) ty
  | relational {left right : Expr} {op : Token} {ty : Ty} (hleft : HasType scopes left ty)
      (hright : HasType scopes right ty) : HasType scopes (.relational left op right) .bool
  | arithmetic {left right : Expr} {op : Token} (hleft : HasType scopes left .int)
      (hright : HasType scopes right .int) : HasType scopes (.arithmetic left op right) .int

theorem hasStorage_iff {kind : SymbolKind} :
    kind.hasStorage = true ↔ kind = .const ∨ kind = .var := by
  cases kind <;> simp [SymbolKind.hasStorage]

/-- What is lowered without a fault has the type that lowering gives. -/
theorem lower_ensures_hasType (e : Expr) (env : Env) :
    e.lower.Ensures env fun ty _ env' => e.HasType env.scopes ty ∧ Passed env env' := by
  induction e generalizing env with
  | missing next => simp [lower]
  | number token =>
    simp only [lower, lowerNumber, ensures_bind, ensures_consume]
    cases hvalue : Text.integer? token.value with
    | none => simp
    | some value =>
      simp only [ensures_bind, ensures_emit, ensures_pure]
      exact ⟨.number hvalue, token, rfl⟩
  | boolean token =>
    simp only [lower, lowerBoolean, ensures_bind, ensures_consume, ensures_emit, ensures_pure]
    exact ⟨.boolean token, token, rfl⟩
  | designator d =>
    simp only [lower, lowerDesignator, Designator.lowerTarget, ensures_bind]
    refine (d.lower_ensures env).mono ?_
    rintro name code env₁ ⟨⟨text, hname, rfl⟩, rfl, token, rfl⟩
    simp only [ensures_resolve]
    intro target htarget
    simp only [Typing.loadable]
    split
    next ty hloadable =>
      simp only [ensures_bind, ensures_load, ensures_pure]
      split at hloadable
      next hstorage =>
        cases hloadable
        exact ⟨.designator hname htarget (hasStorage_iff.mp hstorage), token, rfl⟩
      next => simp at hloadable
    next => simp
  | negation minus operand ih =>
    simp only [lower, lowerNegation, ensures_bind, ensures_consume]
    refine (ih _).mono ?_
    rintro ty code env₁ ⟨hty, token, rfl⟩
    simp only [Typing.negation, ensures_check, ensures_emit, ensures_pure]
    intro result hrule
    split at hrule
    next hint =>
      subst hint
      exact ⟨.negation hty, token, rfl⟩
    next => simp at hrule
  | grouping opening content closing ih =>
    simp only [lower, lowerGrouping, ensures_bind, ensures_consume]
    refine (ih _).mono ?_
    rintro ty code env₁ ⟨hty, token, rfl⟩
    simp only [ensures_terminal, ensures_pure]
    intro token' _
    exact ⟨.grouping hty, token', rfl⟩
  | relational left op right ihl ihr =>
    simp only [lower, lowerRelational, ensures_bind]
    refine (ihl env).mono ?_
    rintro ty code env₁ ⟨hleft, token, rfl⟩
    simp only [ensures_consume]
    refine (ihr _).mono ?_
    rintro ty' code' env₂ ⟨hright, token', rfl⟩
    simp only [Typing.relational]
    split
    next result hrule =>
      split at hrule
      next hsame =>
        cases hrule
        subst hsame
        simp only [ensures_bind, ensures_emit, ensures_pure]
        exact ⟨.relational hleft hright, token', rfl⟩
      next => simp at hrule
    next => simp
  | arithmetic left op right ihl ihr =>
    simp only [lower, lowerArithmetic, ensures_bind]
    refine (ihl env).mono ?_
    rintro ty code env₁ ⟨hleft, token, rfl⟩
    simp only [ensures_consume]
    refine (ihr _).mono ?_
    rintro ty' code' env₂ ⟨hright, token', rfl⟩
    simp only [Typing.arithmetic, ensures_check, ensures_emit, ensures_pure]
    intro result hrule
    split at hrule
    next hint =>
      obtain ⟨rfl, rfl⟩ := hint
      exact ⟨.arithmetic hleft hright, token', rfl⟩
    next => simp at hrule

end Expr

/-! ## Code -/

namespace Lowering

variable {α β : Type}

/-- A phrase that nothing is wrong with: it passes its tokens and changes nothing else. -/
def Yields (x : Lowering α) (env : Env) (tokens : List Token) (a : α) (code : List Instruction) :
    Prop :=
  x env = ⟨a, code, tokens.map fun _ => .consumed,
    { env with last := tokens.getLastD env.last }⟩

theorem Yields.bind {x : Lowering α} {f : α → Lowering β} {env : Env} {first second : List Token}
    {a : α} {b : β} {code code' : List Instruction} (hx : x.Yields env first a code)
    (hf : (f a).Yields { env with last := first.getLastD env.last } second b code') :
    (x >>= f).Yields env (first ++ second) b (code ++ code') := by
  unfold Yields at hx hf ⊢
  have hlast : (first ++ second).getLastD env.last =
      second.getLastD (first.getLastD env.last) := by
    cases hlast : second.getLast? <;>
      simp [List.getLastD_eq_getLast?, List.getLast?_append, hlast]
  rw [bind_apply, hx, hf, hlast, List.map_append]

/-- A last step without tokens. -/
theorem Yields.andEmit {x : Lowering α} {f : α → Lowering β} {env : Env} {tokens : List Token}
    {a : α} {b : β} {code code' : List Instruction} (hx : x.Yields env tokens a code)
    (hf : ∀ env', (f a).Yields env' [] b code') :
    (x >>= f).Yields env tokens b (code ++ code') := by
  simpa using hx.bind (hf _)

theorem yields_consume (token : Token) (env : Env) : (consume token).Yields env [token] () [] := rfl

end Lowering

theorem lowerIndices_yields {indices : List Index} (h : ∀ i ∈ indices, i.Whole) (env : Env) :
    (lowerIndices indices).Yields env (indices.flatMap (·.outline.tokens)) () [] := by
  induction indices generalizing env with
  | nil => rfl
  | cons i indices ih =>
    have hmore := ih fun j hj => h j (by simp [hj])
    have hfirst : i.lower.Yields env i.outline.tokens () [] := by
      obtain ⟨-, -, -⟩ := h i (by simp)
      rfl
    exact hfirst.bind (hmore _)

theorem lowerMemberRefs_yields {members : List MemberRef} (h : ∀ m ∈ members, m.Whole) (env : Env) :
    (lowerMemberRefs members).Yields env (members.flatMap (·.outline.tokens)) () [] := by
  induction members generalizing env with
  | nil => rfl
  | cons m members ih =>
    have hmore := ih fun j hj => h j (by simp [hj])
    obtain ⟨-, -, hindices⟩ := h m (by simp)
    rw [List.flatMap_cons, MemberRef.tokens_read, List.cons_append, List.cons_append]
    exact (yields_consume ..).bind ((yields_consume ..).bind
      ((lowerIndices_yields hindices _).bind (hmore _)))

theorem Designator.lower_yields {d : Designator} (h : d.Whole) (env : Env) :
    d.lower.Yields env d.outline.tokens d.name? [] := by
  obtain ⟨-, hindices, hmembers⟩ := h
  rw [Designator.tokens_read]
  exact (yields_consume ..).bind ((lowerIndices_yields hindices _).bind
    ((lowerMemberRefs_yields hmembers _).andEmit fun _ => rfl))

namespace Expr

variable {x : Lowering Ty} {tokens : List Token} {code : List Instruction} {ty : Ty} {env : Env}

theorem lowerNumber_yields {token : Token} {value : Int}
    (h : Text.integer? token.value = some value) :
    (lowerNumber token).Yields env [token] .int [.plain (.const value)] := by
  simp only [lowerNumber, h]
  rfl

theorem lowerDesignator_yields {d : Designator} {name : String} {target : Resolved} (h : d.Whole)
    (hname : d.name? = some name) (htarget : env.scopes.resolve name = some target)
    (hkind : target.symbol.kind = .const ∨ target.symbol.kind = .var) :
    (lowerDesignator d).Yields env d.outline.tokens target.symbol.ty
      [.plain (target.loadOp (env.scopes.dataLevel target.symbol))] := by
  have hlower := d.lower_yields h env
  unfold Yields at hlower ⊢
  simp [lowerDesignator, Designator.lowerTarget, hlower, hname, resolve, htarget, Typing.loadable,
    hasStorage_iff.mpr hkind, load, emit, emitAll, Lowering.env]

theorem lowerNegation_yields (minus : Token)
    (h : x.Yields { env with last := minus } tokens .int code) :
    (lowerNegation minus x).Yields env (minus :: tokens) .int
      (code ++ [.plain .neg, .plain (.const 1), .plain (.arith .add)]) :=
  (yields_consume ..).bind (h.andEmit fun _ => rfl)

theorem lowerGrouping_yields (opening closing : Token)
    (h : x.Yields { env with last := opening } tokens ty code) :
    (lowerGrouping opening x (.read closing)).Yields env (opening :: (tokens ++ [closing])) ty
      code := by
  refine (yields_consume opening env).bind ?_
  rw [← List.append_nil code]
  exact h.bind ((yields_consume closing _).andEmit fun _ => rfl)

theorem lowerRelational_yields (op : Token)
    (h : x.Yields { env with last := op } tokens ty code) :
    (lowerRelational ty op x).Yields env (op :: tokens) .bool
      (code ++ [.plain (.compare (.ofKind op.kind))]) := by
  refine (yields_consume ..).bind (h.andEmit fun _ => ?_)
  simp only [Typing.relational, if_true]
  rfl

theorem lowerArithmetic_yields (op : Token)
    (h : x.Yields { env with last := op } tokens .int code) :
    (lowerArithmetic .int op x).Yields env (op :: tokens) .int
      (code ++ [.plain (.arith (.ofKind op.kind))]) :=
  (yields_consume ..).bind (h.andEmit fun _ => rfl)

/-- A tree of the textbook grammar that has a type is lowered to its code in postfix order. -/
theorem Stratum.lower_yields {power : Power} {e : Expr} (h : Stratum power e) {ty : Ty} (env : Env)
    (hty : e.HasType env.scopes ty) :
    e.lower.Yields env e.outline.tokens ty (erase (e.term env.scopes).code) := by
  induction h generalizing ty env with
  | loosen _ _ ih => exact ih env hty
  | @relation left right op _ _ _ ihl ihr =>
    cases hty with
    | relational hleft hright =>
      simp only [lower, outline, term, Term.code, Outline.tokens_append, Outline.tokens_round,
        Outline.tokens_token, Outline.tokens_empty, erase_append, List.append_assoc,
        List.append_nil]
      exact (ihl env hleft).bind (lowerRelational_yields op (ihr _ hright))
  | @sum left right op _ _ _ ihl ihr | @product left right op _ _ _ ihl ihr =>
    cases hty with
    | arithmetic hleft hright =>
      simp only [lower, outline, term, Term.code, Outline.tokens_append, Outline.tokens_round,
        Outline.tokens_token, Outline.tokens_empty, erase_append, List.append_assoc,
        List.append_nil]
      exact (ihl env hleft).bind (lowerArithmetic_yields op (ihr _ hright))
  | @negation minus operand _ _ ih =>
    cases hty with
    | negation hoperand =>
      simp only [term, Term.code, erase_append]
      exact lowerNegation_yields minus (ih _ hoperand)
  | @grouping opening closing content _ _ _ ih =>
    cases hty with
    | grouping hcontent =>
      simp only [outline, Terminal.outline, Outline.tokens_append]
      exact lowerGrouping_yields opening closing (ih _ hcontent)
  | number _ =>
    cases hty with
    | number hvalue =>
      simp only [term, hvalue]
      exact lowerNumber_yields hvalue
  | boolean _ =>
    cases hty
    simp [term, Term.code]
    rfl
  | @designator d hwhole =>
    cases hty with
    | @designator _ name target hname htarget hkind =>
      have huse : (d.use env.scopes).target? = some target := by
        simpa [Designator.use, Use.target?, hname] using htarget
      simp only [term, Term.code, erase_cons, Emitted.load_instruction huse]
      exact lowerDesignator_yields hwhole hname htarget hkind

end Expr

/-! ## Sessions -/

namespace Reporter

theorem hearAll_consumed (r : Reporter) (tokens : List Token) :
    r.hearAll (tokens.map fun _ => .consumed) =
      { r with distance := r.distance + tokens.length } := by
  induction tokens generalizing r with
  | nil => rfl
  | cons t tokens ih =>
    rw [List.map_cons, hearAll_cons, ih]
    simp [hear, tokenConsumed, Nat.add_assoc, Nat.add_comm 1]

/-- A fault surfaces if none was heard shortly before. -/
theorem count_lt_hearAll (r : Reporter) (hdistance : r.minDistance ≤ r.distance)
    {events : List Event} (h : ¬ Faultless events) : r.count < (r.hearAll events).count := by
  induction events generalizing r with
  | nil => simp at h
  | cons event events ih =>
    rw [faultless_cons] at h
    rw [hearAll_cons]
    cases event with
    | consumed =>
      exact ih r.tokenConsumed (Nat.le_succ_of_le hdistance) (by simpa [Event.isFault] using h)
    | warning message position =>
      exact ih (r.warn message position) hdistance (by simpa [Event.isFault] using h)
    | fault e =>
      refine Nat.lt_of_lt_of_le ?_ (count_le_hearAll _ events)
      simp [hear, report, surfaces, hdistance]

end Reporter

/-- The tree of `a - 2 * -3 < 7`. -/
def signedRelation : Expr :=
  .relational
    (.arithmetic (.designator ⟨.read (placeless .identifier "a"), [], []⟩) (placeless .dash "-")
      (.arithmetic (.number (placeless .number "2")) (placeless .star "*")
        (.negation (placeless .dash "-") (.number (placeless .number "3")))))
    (placeless .less "<") (.number (placeless .number "7"))

/-- A session in front of the tokens of the tree and a semicolon. -/
def signedSession (scopes : ScopeStack) : Session :=
  (Session.start .full
    (.prepend signedRelation.outline.tokens (.ofTokens [placeless .semicolon ";"] "shell"))
    2).setScopes scopes

theorem signedRelation_stratum : Expr.Stratum .lowest signedRelation := by
  have ha : Expr.Stratum .additive (.designator ⟨.read (placeless .identifier "a"), [], []⟩) :=
    .loosen (.designator (.mk rfl (by simp) (by simp))) (by decide)
  have hproduct : Expr.Stratum .multiplicative
      (.arithmetic (.number (placeless .number "2")) (placeless .star "*")
        (.negation (placeless .dash "-") (.number (placeless .number "3")))) :=
    .product (.loosen (.number rfl) (by decide)) (by decide)
      (.negation rfl (.loosen (.number rfl) (by decide)))
  exact .loosen (.relation (.loosen (.sum ha (by decide) hproduct) (by decide)) (by decide)
    (.loosen (.number rfl) (by decide))) (by decide)

/-- A program with an integer variable `a`. -/
def signedScopes : ScopeStack := (ScopeStack.empty.openScope.declareStorage "a" .var .int).2

theorem signedRelation_hasType : signedRelation.HasType signedScopes .bool := by
  have ha : Expr.HasType signedScopes (.designator ⟨.read (placeless .identifier "a"), [], []⟩)
      .int :=
    @Expr.HasType.designator _ _ _ ⟨⟨"a", .var, .int, 0, some 0⟩, false⟩ rfl rfl (.inr rfl)
  have hnumber {numeral : String} {value : Int} (h : Text.integer? numeral = some value) :
      Expr.HasType signedScopes (.number (placeless .number numeral)) .int := .number h
  exact .relational (.arithmetic ha (.arithmetic (hnumber rfl) (.negation (hnumber rfl))))
    (hnumber rfl)

end SlotLang
