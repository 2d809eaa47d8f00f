import SlotLang.Grammar.Forms
import SlotLang.Proofs.Derivation

/-!
# What one token tells

One token ahead decides how the grammar goes on: the phrases among which a reader has to choose open
with different kinds of tokens, and a repetition is never followed by a token that could open its
next turn.  There is one exception.  A branch may lack an alternative, and if a branch is the last
part of the body of another one, then an alternative behind it could belong to either.  The words are
the same in both cases, and so it does no harm to give it to the nearer branch.
-/

namespace SlotLang

/-- There is a next kind, and it is one of these. -/
def Next (ok : TokenKind → Bool) : List TokenKind → Prop
  | [] => False
  | k :: _ => ok k = true

section

variable {ok ok' : TokenKind → Bool} {p : Phrase} {u r : List TokenKind}

@[simp] theorem next_cons {k : TokenKind} : Next ok (k :: u) ↔ ok k = true := Iff.rfl

theorem Next.imp (h : Next ok u) (himp : ∀ k, ok k = true → ok' k = true) : Next ok' u := by
  cases u with
  | nil => exact h
  | cons k v => exact himp k h

/-- Every word of the phrase has a first kind, and it is one of these. -/
def Opens (ok : TokenKind → Bool) (p : Phrase) : Prop :=
  ∀ u r, Spans p u r → Next ok u ∧ r.length < u.length

namespace Opens

theorem token {k : TokenKind} (h : ok k = true) : Opens ok (.token k) := by
  intro u r hspans
  rw [spans_token.mp hspans]
  exact ⟨h, by simp⟩

theorem sequence {parts : List Phrase} (h : Opens ok p) : Opens ok (.sequence (p :: parts)) := by
  intro u r hspans
  obtain ⟨m, hfirst, hmore⟩ := spans_cons.mp hspans
  obtain ⟨hnext, hlt⟩ := h u m hfirst
  exact ⟨hnext, Nat.lt_of_le_of_lt hmore.length_le hlt⟩

theorem choice {options : List Phrase} (h : ∀ p ∈ options, Opens ok p) :
    Opens ok (.choice options) := by
  intro u r hspans
  obtain ⟨p, hmem, hp⟩ := spans_choice.mp hspans
  exact h p hmem u r hp

theorem tokens (kinds : List TokenKind) (h : kinds.all ok = true) :
    Opens ok (.choice (kinds.map .token)) := by
  apply choice
  intro p hmem
  obtain ⟨k, hk, rfl⟩ := List.mem_map.mp hmem
  exact token (List.all_eq_true.mp h k hk)

theorem rule {rule : Rule} (h : Opens ok rule.phrase) : Opens ok (.rule rule) :=
  fun u r hspans => h u r (spans_rule.mp hspans)

theorem imp (h : Opens ok p) (himp : ∀ k, ok k = true → ok' k = true) : Opens ok' p :=
  fun u r hspans => ⟨(h u r hspans).1.imp himp, (h u r hspans).2⟩

/-- In front of a repetition there is its next turn or what follows it. -/
theorem next_repetition (h : Opens ok p) (hspans : Spans (.repetition p) u r) (hr : Next ok r) :
    Next ok u := by
  rcases spans_repetition.mp hspans with rfl | ⟨m, hfirst, -⟩
  · exact hr
  · exact (h u m hfirst).1

end Opens

theorem next_moreItems (hcomma : ok .comma = true)
    (h : Spans (.repetition (.sequence [.token .comma, p])) u r)
    (hr : Next (fun k => ok k && k != .comma) r) : Next ok u := by
  have hopens : Opens ok (.sequence [.token .comma, p]) := .sequence (.token hcomma)
  exact hopens.next_repetition h (hr.imp (by simp +contextual))

end

/-! ## How the phrases open -/

namespace TokenKind

/-- No index and no member follows. -/
def endsDesignator (k : TokenKind) : Bool := k != openBracket && k != dot

def endsExpr (k : TokenKind) : Bool := k.endsDesignator && (Grammar.full.operator? k).isNone

/-- No statement and no alternative follows. -/
def endsStmts (k : TokenKind) : Bool := !Grammar.full.startsStmt k && k != kwElse

def opensScalar (k : TokenKind) : Bool := k = kwInt || k = kwBool

def opensDeclaration (k : TokenKind) : Bool := k.opensScalar || k = kwConst || k = kwStruct

def opensItem (k : TokenKind) : Bool :=
  k.opensDeclaration || Grammar.full.startsStmt k || k == kwVoid || k == kwExternal

theorem ne_of_opensItem {k : TokenKind} (h : k.opensItem = true) :
    k ≠ closeCurly ∧ k ≠ eof ∧ k ≠ kwElse := by
  cases k <;> simp_all [opensItem, opensDeclaration, opensScalar, Grammar.startsStmt,
    Grammar.stmtForm?]

theorem not_opensDeclaration {k : TokenKind}
    (h : Grammar.full.startsStmt k = true ∨ k = kwVoid ∨ k = kwExternal) :
    k.opensDeclaration = false := by
  cases k <;> simp_all [opensDeclaration, opensScalar, Grammar.startsStmt, Grammar.stmtForm?]

end TokenKind

open TokenKind

theorem opens_designator : Opens (· == identifier) (.rule .designator) :=
  .rule (.sequence (.token rfl))

theorem next_members {u r : List TokenKind} (h : Spans .members u r) (hr : Next endsDesignator r) :
    Next (· != openBracket) u := by
  have hopens : Opens (· != openBracket) (.sequence [.token dot, .token identifier, .indices]) :=
    .sequence (.token rfl)
  exact hopens.next_repetition h (hr.imp (by simp +contextual [endsDesignator]))

theorem opens_factor : Opens (fun k => (Grammar.full.factorForm? k).isSome) (.rule .factor) := by
  refine .rule (.choice ?_)
  simp only [List.forall_mem_cons]
  exact ⟨opens_designator.imp (by simp [Grammar.factorForm?]), .token rfl, .token rfl, .token rfl,
    .sequence (.token rfl), .sequence (.token rfl), by simp⟩

theorem opens_expression :
    Opens (fun k => (Grammar.full.factorForm? k).isSome) (.rule .expression) :=
  .rule (.sequence opens_factor)

theorem opens_operator : Opens (fun k => (Grammar.full.operator? k).isSome) (.rule .operator) :=
  .rule (.tokens
    [equals, notEquals, less, lessEquals, greater, greaterEquals, plus, dash, star, slash] rfl)

theorem operator_of_spans {u r : List TokenKind} (h : Spans (.rule .operator) u r) :
    ∃ k power form, u = k :: r ∧ Grammar.full.operator? k = some (power, form) := by
  rw [spans_rule] at h
  simp only [Rule.phrase, spans_choice, List.mem_cons, List.not_mem_nil, or_false] at h
  obtain ⟨p, hmem, hp⟩ := h
  rcases hmem with rfl | rfl | rfl | rfl | rfl | rfl | rfl | rfl | rfl | rfl
  all_goals exact ⟨_, _, _, spans_token.mp hp, rfl⟩

theorem next_operands {u r : List TokenKind} (h : Spans .operands u r) (hr : Next endsExpr r) :
    Next endsDesignator u := by
  have hends : ∀ k, (Grammar.full.operator? k).isSome = true → endsDesignator k = true := by
    intro k
    cases k <;> simp [Grammar.operator?, endsDesignator]
  have hopens : Opens endsDesignator (.sequence [.rule .operator, .rule .factor]) :=
    .sequence (opens_operator.imp hends)
  exact hopens.next_repetition h (hr.imp (by simp +contextual [endsExpr]))

theorem opens_scalar : Opens opensScalar (.rule .scalar) := .rule (.tokens [kwInt, kwBool] rfl)

theorem opens_declarator : Opens (· == identifier) (.rule .declarator) :=
  .rule (.sequence (.token rfl))

theorem opens_memberType : Opens (fun k => k.opensScalar || k == kwStruct) .memberType := by
  refine .choice ?_
  simp only [List.forall_mem_cons]
  exact ⟨opens_scalar.imp (by simp +contextual), .sequence (.token rfl), by simp⟩

theorem opens_member : Opens (fun k => k.opensScalar || k == kwStruct) .member :=
  .sequence opens_memberType

theorem opens_declaration {rule : Rule} (h : rule ∈ declarationRules) :
    Opens opensDeclaration (.rule rule) := by
  simp only [declarationRules, List.mem_cons, List.not_mem_nil, or_false] at h
  rcases h with rfl | rfl | rfl
  · exact .rule (.sequence (.token rfl))
  · exact .rule (.sequence (opens_scalar.imp (by simp +contextual [opensDeclaration])))
  · exact .rule (.sequence (.token rfl))

theorem opens_simpleStatement : Opens Grammar.full.startsStmt .simpleStatement := by
  have hdesignator : Opens Grammar.full.startsStmt (.rule .designator) :=
    opens_designator.imp (by simp [Grammar.startsStmt, Grammar.stmtForm?])
  refine .choice ?_
  simp only [List.forall_mem_cons]
  exact ⟨.sequence (.sequence hdesignator), .sequence hdesignator, .sequence (.token rfl),
    .sequence (.token rfl), .sequence (.token rfl), .sequence (.token rfl), by simp⟩

theorem opens_statement : Opens Grammar.full.startsStmt (.rule .statement) := by
  refine .rule (.choice ?_)
  simp only [List.forall_mem_cons]
  exact ⟨opens_simpleStatement, .sequence (.token rfl), .sequence (.token rfl),
    .sequence (.token rfl), by simp⟩

theorem next_statements {u r : List TokenKind} (h : Spans (.repetition (.rule .statement)) u r)
    (hr : Next endsStmts r) : Next (· != kwElse) u := by
  have hne : ∀ k, Grammar.full.startsStmt k = true → (k != kwElse) = true := by
    intro k
    cases k <;> simp [Grammar.startsStmt, Grammar.stmtForm?]
  exact (opens_statement.imp hne).next_repetition h (hr.imp (by simp +contextual [endsStmts]))

theorem opens_case : Opens endsStmts .case := .sequence (.token rfl)

theorem opens_blockItem : Opens opensItem .blockItem := by
  intro u r hspans
  rcases spans_blockItem.mp hspans with ⟨rule, hmem, hrule⟩ | hstatement
  · exact (opens_declaration hmem).imp (by simp +contextual [opensItem]) u r hrule
  · exact opens_statement.imp (by simp +contextual [opensItem]) u r hstatement

theorem opens_procedure : Opens (· == kwVoid) (.rule .procedure) := .rule (.sequence (.token rfl))

theorem opens_external : Opens (· == kwExternal) (.rule .external) := .rule (.sequence (.token rfl))

theorem opens_bodyItem : Opens opensItem .bodyItem := by
  intro u r hspans
  rcases spans_bodyItem.mp hspans with ⟨rule, hmem, hrule⟩ | hprocedure | hstatement
  · exact (opens_declaration hmem).imp (by simp +contextual [opensItem]) u r hrule
  · exact opens_procedure.imp (by simp +contextual [opensItem]) u r hprocedure
  · exact opens_statement.imp (by simp +contextual [opensItem]) u r hstatement

theorem opens_programItem : Opens opensItem .programItem := by
  intro u r hspans
  rcases spans_programItem.mp hspans with ⟨rule, hmem, hrule⟩ | hprocedure | hexternal
  · exact (opens_declaration hmem).imp (by simp +contextual [opensItem]) u r hrule
  · exact opens_procedure.imp (by simp +contextual [opensItem]) u r hprocedure
  · exact opens_external.imp (by simp +contextual [opensItem]) u r hexternal

/-- What follows an item of a list in braces is no alternative. -/
theorem next_items {p : Phrase} {u r : List TokenKind} (hopens : Opens opensItem p)
    (h : Spans (.repetition p) u r) (hr : Next (· == closeCurly) r) : Next (· != kwElse) u := by
  have hne : ∀ k, opensItem k = true → (k != kwElse) = true := by
    intro k hk
    exact bne_iff_ne.mpr (ne_of_opensItem hk).2.2
  exact (hopens.imp hne).next_repetition h (hr.imp (by simp))

/-! ## Alternatives of branches -/

/-- Statements that an alternative cannot continue: wherever they end with the body of a branch, the
branch has its alternative. -/
inductive Closed : List TokenKind → List TokenKind → Prop where
  | simple {u r : List TokenKind} (h : Spans .simpleStatement u r) : Closed u r
  | branchElse {l m n r : List TokenKind} (hcondition : Spans .condition l m)
      (hbody : Closed m (kwElse :: n)) (hother : Closed n r) : Closed (kwIf :: l) r
  | whileLoop {l m r : List TokenKind} (hcondition : Spans .condition l m)
      (hbody : Closed m r) : Closed (kwWhile :: l) r
  | forLoop {l m r : List TokenKind} (hhead : Spans .loopHead l m)
      (hbody : Closed m r) : Closed (kwFor :: l) r

theorem Closed.spans {u r : List TokenKind} (h : Closed u r) : Spans (.rule .statement) u r := by
  induction h with
  | simple h => exact spans_statement.mpr (.inl h)
  | branchElse hcondition _ _ hbody hother =>
    exact spans_statement.mpr (.inr (.inr (.inl ⟨_, _, _, rfl, hcondition, hbody, hother⟩)))
  | whileLoop hcondition _ hbody =>
    exact spans_statement.mpr (.inr (.inr (.inr (.inl ⟨_, _, rfl, hcondition, hbody⟩))))
  | forLoop hhead _ hbody =>
    exact spans_statement.mpr (.inr (.inr (.inr (.inr ⟨_, _, rfl, hhead, hbody⟩))))

/-- If a statement is followed by an alternative, then either an alternative cannot continue it or
the two together are a statement. -/
theorem closed_or_extends {u m r : List TokenKind} (hfirst : Spans (.rule .statement) u (kwElse :: m))
    (hother : Spans (.rule .statement) m r) :
    Closed u (kwElse :: m) ∨ Spans (.rule .statement) u r := by
  induction hlen : u.length using Nat.strongRecOn generalizing u m r with
  | ind size ih =>
  subst hlen
  rcases spans_statement.mp hfirst with hsimple | ⟨l, v, rfl, hcondition, hbody⟩ |
    ⟨l, v, n, rfl, hcondition, hbody, helse⟩ | ⟨l, v, rfl, hcondition, hbody⟩ |
    ⟨l, v, rfl, hhead, hbody⟩
  · exact .inl (.simple hsimple)
  · -- The branch has no alternative, and so it can have this one.
    exact .inr (spans_statement.mpr (.inr (.inr (.inl ⟨l, v, m, rfl, hcondition, hbody, hother⟩))))
  · have hv : v.length < (kwIf :: l).length := Nat.lt_succ_of_le hcondition.length_le
    have hn : n.length < (kwIf :: l).length := by
      have hle := hbody.length_le
      simp only [List.length_cons] at hle hv ⊢
      omega
    rcases ih _ hn helse hother rfl with hclosed | hextended
    · rcases ih _ hv hbody helse rfl with hclosedBody | hextendedBody
      · exact .inl (.branchElse hcondition hclosedBody hclosed)
      · -- The body takes the alternative that it was followed by, and the branch the next one.
        exact .inr (spans_statement.mpr (.inr (.inr (.inl
          ⟨l, v, m, rfl, hcondition, hextendedBody, hother⟩))))
    · exact .inr (spans_statement.mpr (.inr (.inr (.inl
        ⟨l, v, n, rfl, hcondition, hbody, hextended⟩))))
  · have hv : v.length < (kwWhile :: l).length := Nat.lt_succ_of_le hcondition.length_le
    rcases ih _ hv hbody hother rfl with hclosed | hextended
    · exact .inl (.whileLoop hcondition hclosed)
    · exact .inr (spans_statement.mpr (.inr (.inr (.inr (.inl
        ⟨l, v, rfl, hcondition, hextended⟩)))))
  · have hv : v.length < (kwFor :: l).length := Nat.lt_succ_of_le hhead.length_le
    rcases ih _ hv hbody hother rfl with hclosed | hextended
    · exact .inl (.forLoop hhead hclosed)
    · exact .inr (spans_statement.mpr (.inr (.inr (.inr (.inr
        ⟨l, v, rfl, hhead, hextended⟩)))))

end SlotLang
