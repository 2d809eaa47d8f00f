import SlotLang.Proofs.Recognition

/-!
# Designators and expressions

The readers of designators and of expressions are sound and complete.  The grammar knows nothing of
powers: an expression is a row of factors with operators between them.  The power that an expression
is read with only decides where its reading stops and which of the operations around it takes the
rest of the row.
-/

namespace SlotLang

open TokenKind

def FactorForm.openings : FactorForm → List TokenKind
  | .number => [.number]
  | .boolean => [.kwTrue, .kwFalse]
  | .designator => [.identifier]
  | .negation => [.dash]
  | .grouping => [.openParen]

theorem mem_openings {g : Grammar} {k : TokenKind} {form : FactorForm}
    (h : g.factorForm? k = some form) : k ∈ form.openings := by
  cases g <;> cases k <;> simp_all [Grammar.factorForm?] <;> subst h <;> simp [FactorForm.openings]

theorem Expr.gaps_operation (form : OperatorForm) (left : Expr) (op : Token) (right : Expr) :
    (operation form left op right).gaps = left.gaps ++ right.gaps := by
  cases form <;> rfl

/-- An operator of this kind does not continue an expression that is read with the power. -/
def Power.blocks (power : Power) (k : TokenKind) : Bool :=
  match Grammar.full.operator? k with
  | none => true
  | some (opPower, _) => opPower.rank ≤ power.rank

namespace Window

variable {n steps : Nat}

/-! ## Designators -/

theorem sound_readIndices (steps : Nat) :
    Sound (fun indices => indices.flatMap Index.gaps) .indices (readIndices steps) := by
  induction steps with
  | zero =>
    intro w u h _
    exact ⟨u, h, .stop _ u⟩
  | succ steps ih =>
    intro w u h hgaps
    unfold readIndices at hgaps ⊢
    split
    next hkind =>
      simp only [hkind, if_true, List.flatMap_cons, Index.gaps, List.append_eq_nil_iff] at hgaps
      obtain ⟨v₁, rfl, h₁⟩ := h.passes hkind (by decide)
      obtain ⟨v₂, rfl, h₂⟩ := expect_passes h₁ (by decide) hgaps.1.1
      obtain ⟨v₃, rfl, h₃⟩ := expect_passes h₂ (by decide) hgaps.1.2
      obtain ⟨r, hr, hmore⟩ := ih _ v₃ h₃ hgaps.2
      exact ⟨r, hr, .again (by simp) hmore⟩
    next => exact ⟨u, h, .stop _ u⟩

theorem sound_readMembers (steps : Nat) :
    Sound (fun members => members.flatMap MemberRef.gaps) .members (readMembers steps) := by
  induction steps with
  | zero =>
    intro w u h _
    exact ⟨u, h, .stop _ u⟩
  | succ steps ih =>
    intro w u h hgaps
    unfold readMembers at hgaps ⊢
    split
    next hkind =>
      rw [if_pos hkind] at hgaps
      obtain ⟨v₁, rfl, h₁⟩ := h.passes hkind (by decide)
      split
      next heq => simp [heq, MemberRef.gaps, Terminal.gaps] at hgaps
      next heq =>
        simp only [heq, List.flatMap_cons, MemberRef.gaps, Terminal.gaps, List.nil_append,
          List.append_eq_nil_iff] at hgaps
        obtain ⟨v₂, rfl, h₂⟩ := expect_read heq h₁ (by decide)
        obtain ⟨v₃, h₃, hindices⟩ := sound_readIndices steps _ v₂ h₂ hgaps.1
        obtain ⟨r, hr, hmore⟩ := ih _ v₃ h₃ hgaps.2
        exact ⟨r, hr, .again (by simpa using hindices) hmore⟩
    next => exact ⟨u, h, .stop _ u⟩

theorem sound_readDesignator (steps : Nat) :
    Sound Designator.gaps (.rule .designator) (readDesignator steps) := by
  intro w u h hgaps
  unfold readDesignator at hgaps ⊢
  split
  next heq => simp [heq, Designator.gaps, Terminal.gaps] at hgaps
  next heq =>
    simp only [heq, Designator.gaps, Terminal.gaps, List.nil_append,
      List.append_eq_nil_iff] at hgaps
    obtain ⟨v, rfl, hv⟩ := expect_read heq h (by decide)
    obtain ⟨m, hm, hindices⟩ := sound_readIndices steps _ v hv hgaps.1
    obtain ⟨r, hr, hmembers⟩ := sound_readMembers steps _ m hm hgaps.2
    exact ⟨r, hr, spans_designator.mpr ⟨v, m, rfl, hindices, hmembers⟩⟩

theorem complete_readIndices (hsteps : n ≤ steps) :
    Complete (fun indices => indices.flatMap Index.gaps) .indices (Next (· != .openBracket)) n
      (readIndices steps) := by
  induction n generalizing steps with
  | zero => exact complete_zero
  | succ n ih =>
    cases steps with
    | zero => contradiction
    | succ steps =>
    have ih := ih (Nat.le_of_succ_le_succ hsteps)
    intro w u r hlen h hspans hr
    rcases spans_repetition.mp hspans with rfl | ⟨m, hfirst, hmore⟩
    · have hstop := h.next hr
      rw [readIndices, if_neg (by simpa using hstop)]
      exact ⟨rfl, h⟩
    · simp only [spans_cons, spans_token, spans_nil] at hfirst
      obtain ⟨_, rfl, _, rfl, _, rfl, rfl⟩ := hfirst
      simp only [readIndices, if_pos h.kind_eq, List.flatMap_cons, Index.gaps,
        List.append_eq_nil_iff]
      obtain ⟨g₁, h₁⟩ := (h.advance (by decide)).expect (by decide)
      obtain ⟨g₂, h₂⟩ := h₁.expect (by decide)
      obtain ⟨g₃, h₃⟩ := ih _ _ r (by grind) h₂ hmore hr
      exact ⟨⟨⟨g₁, g₂⟩, g₃⟩, h₃⟩

theorem complete_readMembers (hsteps : n ≤ steps) :
    Complete (fun members => members.flatMap MemberRef.gaps) .members (Next endsDesignator) n
      (readMembers steps) := by
  induction n generalizing steps with
  | zero => exact complete_zero
  | succ n ih =>
    cases steps with
    | zero => contradiction
    | succ steps =>
    have hindices := complete_readIndices (Nat.le_of_succ_le_succ hsteps)
    have ih := ih (Nat.le_of_succ_le_succ hsteps)
    intro w u r hlen h hspans hr
    rcases spans_repetition.mp hspans with rfl | ⟨m, hfirst, hmore⟩
    · have hstop := h.next hr
      simp only [endsDesignator, Bool.and_eq_true, bne_iff_ne] at hstop
      rw [readMembers, if_neg hstop.2]
      exact ⟨rfl, h⟩
    · simp only [spans_cons, spans_token, spans_nil] at hfirst
      obtain ⟨_, rfl, v, rfl, m, hbounds, rfl⟩ := hfirst
      have hname := h.advance (by decide)
      simp only [readMembers, if_pos h.kind_eq, hname.expect_eq, List.flatMap_cons, MemberRef.gaps,
        Terminal.gaps, List.nil_append, List.append_eq_nil_iff]
      obtain ⟨g₁, h₁⟩ := hindices _ v m (by grind) (hname.advance (by decide)) hbounds
        (next_members hmore hr)
      obtain ⟨g₂, h₂⟩ := ih _ m r (by grind) h₁ hmore hr
      exact ⟨⟨g₁, g₂⟩, h₂⟩

theorem complete_readDesignator (hsteps : n ≤ steps) :
    Complete Designator.gaps (.rule .designator) (Next endsDesignator) n
      (readDesignator steps) := by
  intro w u r hlen h hspans hr
  obtain ⟨l, m, rfl, hindices, hmembers⟩ := spans_designator.mp hspans
  simp only [readDesignator, h.expect_eq, Designator.gaps, Terminal.gaps, List.nil_append,
    List.append_eq_nil_iff]
  obtain ⟨g₁, h₁⟩ := complete_readIndices hsteps _ l m (by grind) (h.advance (by decide)) hindices
    (next_members hmembers hr)
  obtain ⟨g₂, h₂⟩ := complete_readMembers hsteps _ m r (by grind) h₁ hmembers hr
  exact ⟨⟨g₁, g₂⟩, h₂⟩

/-! ## Expressions without gaps -/

/-- No operator binds as tight as a sign, and so a sign takes one factor. -/
theorem readOperators_unary (g : Grammar) (steps : Nat) (left : Expr) (w : Window) :
    readOperators g steps .unary left w = (left, w) := by
  cases steps with
  | zero => rfl
  | succ steps =>
    unfold readOperators
    split
    · rfl
    next power form hoperator =>
      have hrank : ¬ Power.unary.rank < power.rank := by
        revert hoperator
        cases g <;> cases w.kind <;> simp [Grammar.operator?, Power.rank] <;> grind [Power.rank]
      rw [if_neg hrank]

theorem spans_operator {g : Grammar} {k : TokenKind} {power : Power} {form : OperatorForm}
    (h : g.operator? k = some (power, form)) (r : List TokenKind) :
    Spans (.rule .operator) (k :: r) r := by
  rw [spans_rule]
  cases g <;> cases k <;> simp_all [Grammar.operator?, Rule.phrase]

theorem operator_ne_eof {g : Grammar} {k : TokenKind} {found : Power × OperatorForm}
    (h : g.operator? k = some found) : k ≠ .eof := by
  rintro rfl
  cases g <;> simp [Grammar.operator?] at h

/-- Operators leave the gaps of their left operand in place. -/
theorem gaps_left_of_readOperators {g : Grammar} {steps : Nat} {power : Power} {left : Expr}
    {w : Window} (h : (w.readOperators g steps power left).1.gaps = []) : left.gaps = [] := by
  induction steps generalizing left w with
  | zero => exact h
  | succ steps ih =>
    unfold readOperators at h
    split at h
    · exact h
    next opPower form _ =>
      split at h
      · have hoperation := ih h
        rw [Expr.gaps_operation, List.append_eq_nil_iff] at hoperation
        exact hoperation.1
      · exact h

/-- The readers of expressions, for one number of steps. -/
structure SoundExprs (g : Grammar) (steps : Nat) : Prop where
  expr : ∀ power, Sound Expr.gaps (.rule .expression) (readExpr g steps power)
  unary : Sound Expr.gaps (.rule .factor) (readExpr g steps .unary)
  operators : ∀ power left, Sound Expr.gaps .operands (readOperators g steps power left)

theorem sound_readFactor {g : Grammar} {steps : Nat} {form : FactorForm} {w : Window}
    {u : List TokenKind} (hparts : ∀ m < steps, SoundExprs g m)
    (hform : g.factorForm? w.kind = some form) (h : w.Shows u)
    (hgaps : (w.readFactor g steps form).1.gaps = []) :
    ∃ r, (w.readFactor g steps form).2.Shows r ∧ Spans (.rule .factor) u r := by
  have hopens := mem_openings hform
  cases form with
  | number =>
    obtain ⟨r, rfl, hr⟩ := h.passes (List.mem_singleton.mp hopens) (by decide)
    exact ⟨r, by simpa only [readFactor] using hr, spans_factor.mpr (.inr (.inl rfl))⟩
  | boolean =>
    simp only [FactorForm.openings, List.mem_cons, List.not_mem_nil, or_false] at hopens
    rcases hopens with hkind | hkind
    · obtain ⟨r, rfl, hr⟩ := h.passes hkind (by decide)
      exact ⟨r, by simpa only [readFactor] using hr,
        spans_factor.mpr (.inr (.inr (.inl rfl)))⟩
    · obtain ⟨r, rfl, hr⟩ := h.passes hkind (by decide)
      exact ⟨r, by simpa only [readFactor] using hr,
        spans_factor.mpr (.inr (.inr (.inr (.inl rfl))))⟩
  | designator =>
    simp only [readFactor, Expr.gaps] at hgaps ⊢
    obtain ⟨r, hr, hspans⟩ := sound_readDesignator steps w u h hgaps
    exact ⟨r, hr, spans_factor.mpr (.inl hspans)⟩
  | negation =>
    obtain ⟨v, rfl, hv⟩ := h.passes (List.mem_singleton.mp hopens) (by decide)
    cases steps with
    | zero => simp [readFactor, Expr.gaps] at hgaps
    | succ steps =>
      simp only [readFactor, Expr.gaps] at hgaps ⊢
      obtain ⟨r, hr, hspans⟩ := (hparts steps (by omega)).unary _ v hv hgaps
      exact ⟨r, hr, spans_factor.mpr (.inr (.inr (.inr (.inr (.inl ⟨v, rfl, hspans⟩)))))⟩
  | grouping =>
    obtain ⟨v, rfl, hv⟩ := h.passes (List.mem_singleton.mp hopens) (by decide)
    cases steps with
    | zero => simp [readFactor, Expr.gaps] at hgaps
    | succ steps =>
      simp only [readFactor, Expr.gaps, List.append_eq_nil_iff] at hgaps ⊢
      obtain ⟨m, hm, hspans⟩ := (hparts steps (by omega)).expr .lowest _ v hv hgaps.1
      obtain ⟨r, rfl, hr⟩ := expect_passes hm (by decide) hgaps.2
      exact ⟨r, hr, spans_factor.mpr (.inr (.inr (.inr (.inr (.inr ⟨v, rfl, hspans⟩)))))⟩

theorem soundExprs (g : Grammar) (steps : Nat) : SoundExprs g steps := by
  -- What stands in parentheses is read two steps below, and so the induction is a strong one.
  induction steps using Nat.strongRecOn with
  | ind steps ih =>
  cases steps with
  | zero =>
    constructor
    · intro power w u _ hgaps
      simp [readExpr, Expr.gaps] at hgaps
    · intro w u _ hgaps
      simp [readExpr, Expr.gaps] at hgaps
    · intro power left w u h _
      exact ⟨u, h, .stop _ u⟩
  | succ steps =>
    have hparts : ∀ m < steps, SoundExprs g m := fun m hm => ih m (by omega)
    have hsteps := ih steps (by omega)
    constructor
    · intro power w u h hgaps
      unfold readExpr at hgaps ⊢
      split
      next hform => simp [hform, Expr.gaps] at hgaps
      next form hform =>
        rw [hform] at hgaps
        obtain ⟨m, hm, hfirst⟩ := sound_readFactor hparts hform h (gaps_left_of_readOperators hgaps)
        obtain ⟨r, hr, hmore⟩ := hsteps.operators power _ _ m hm hgaps
        exact ⟨r, hr, spans_expression.mpr ⟨m, hfirst, hmore⟩⟩
    · intro w u h hgaps
      unfold readExpr at hgaps ⊢
      split
      next hform => simp [hform, Expr.gaps] at hgaps
      next form hform =>
        rw [hform] at hgaps
        simp only [readOperators_unary] at hgaps ⊢
        exact sound_readFactor hparts hform h hgaps
    · intro power left w u h hgaps
      unfold readOperators at hgaps ⊢
      split
      next => exact ⟨u, h, .stop _ u⟩
      next opPower form hoperator =>
        simp only [hoperator] at hgaps
        split
        next hrank =>
          rw [if_pos hrank] at hgaps
          have hoperation := gaps_left_of_readOperators hgaps
          rw [Expr.gaps_operation, List.append_eq_nil_iff] at hoperation
          obtain ⟨v, rfl, hv⟩ := h.passes rfl (operator_ne_eof hoperator)
          obtain ⟨m, hm, hright⟩ := hsteps.expr opPower _ v hv hoperation.2
          obtain ⟨r, hr, hmore⟩ := hsteps.operators power _ _ m hm hgaps
          obtain ⟨l, hl, hothers⟩ := spans_expression.mp hright
          refine ⟨r, hr, .again ?_ (hothers.repetition_trans hmore)⟩
          simp only [spans_cons, spans_nil]
          exact ⟨v, spans_operator hoperator v, l, hl, rfl⟩
        next => exact ⟨u, h, .stop _ u⟩

theorem sound_readExpr (g : Grammar) (steps : Nat) :
    Sound Expr.gaps (.rule .expression) fun w => w.readExpr g steps .lowest :=
  (soundExprs g steps).expr .lowest

/-! ## Rows of factors -/

/-- An expression is left without gaps, at its end or before it, in front of an operator that does
not bind tighter than the power. -/
def Leaves (power : Power) (u r : List TokenKind) (result : Expr × Window) : Prop :=
  result.1.gaps = [] ∧ ∃ m, result.2.Shows m ∧ m.length ≤ u.length ∧ Spans .operands m r ∧
    Next power.blocks m

theorem Leaves.mono {power : Power} {u v r : List TokenKind} {result : Expr × Window}
    (h : Leaves power v r result) (hle : v.length ≤ u.length) : Leaves power u r result := by
  obtain ⟨hgaps, m, hm, hlen, hmore⟩ := h
  exact ⟨hgaps, m, hm, Nat.le_trans hlen hle, hmore⟩

structure CompleteExprs (n steps : Nat) : Prop where
  expr : ∀ (power : Power) (w : Window) (u r : List TokenKind), u.length ≤ n → w.Shows u →
    Spans (.rule .expression) u r → Next endsExpr r →
    Leaves power u r (w.readExpr .full steps power)
  unary : Complete Expr.gaps (.rule .factor) (Next endsDesignator) n
    (readExpr .full steps .unary)
  operators : ∀ (power : Power) (left : Expr) (w : Window) (u r : List TokenKind), u.length ≤ n →
    w.Shows u → left.gaps = [] → Spans .operands u r → Next endsExpr r →
    Leaves power u r (w.readOperators .full steps power left)

/-- All operators continue an expression that is read with the lowest power. -/
theorem eq_of_blocks_lowest {m r : List TokenKind} (h : Spans .operands m r)
    (hm : Next Power.lowest.blocks m) : m = r := by
  rcases spans_repetition.mp h with rfl | ⟨l, hfirst, -⟩
  · rfl
  · obtain ⟨v, hoperator, -⟩ := spans_cons.mp hfirst
    obtain ⟨k, power, form, rfl, hk⟩ := operator_of_spans hoperator
    simp only [next_cons, Power.blocks] at hm
    cases k <;> simp_all [Grammar.operator?, Power.rank] <;> grind [Power.rank]

theorem CompleteExprs.lowest (h : CompleteExprs n steps) :
    Complete Expr.gaps (.rule .expression) (Next endsExpr) n (readExpr .full steps .lowest) := by
  intro w u r hlen hu hspans hr
  obtain ⟨hgaps, m, hm, -, hmore, hblocks⟩ := h.expr .lowest w u r hlen hu hspans hr
  rw [eq_of_blocks_lowest hmore hblocks] at hm
  exact ⟨hgaps, hm⟩

theorem readFactor_complete (ih : CompleteExprs n steps) (hsteps : n ≤ steps) {w : Window}
    {u r : List TokenKind} (hlen : u.length ≤ n + 1) (h : w.Shows u)
    (hspans : Spans (.rule .factor) u r) (hr : Next endsDesignator r) :
    ∃ form, Grammar.full.factorForm? w.kind = some form ∧
      (w.readFactor .full (steps + 1) form).1.gaps = [] ∧
      (w.readFactor .full (steps + 1) form).2.Shows r := by
  rcases spans_factor.mp hspans with hdesignator | rfl | rfl | rfl | ⟨m, rfl, hoperand⟩ |
    ⟨m, rfl, hcontent⟩
  · have hkind := h.next (opens_designator u r hdesignator).1
    rw [beq_iff_eq] at hkind
    exact ⟨.designator, by rw [hkind]; rfl,
      complete_readDesignator (Nat.succ_le_succ hsteps) w u r hlen h hdesignator hr⟩
  · exact ⟨.number, by rw [h.kind_eq]; rfl, rfl, h.advance (by decide)⟩
  · exact ⟨.boolean, by rw [h.kind_eq]; rfl, rfl, h.advance (by decide)⟩
  · exact ⟨.boolean, by rw [h.kind_eq]; rfl, rfl, h.advance (by decide)⟩
  · exact ⟨.negation, by rw [h.kind_eq]; rfl,
      ih.unary _ m r (by grind) (h.advance (by decide)) hoperand hr⟩
  · obtain ⟨g₁, h₁⟩ := ih.lowest _ m _ (by grind) (h.advance (by decide)) hcontent rfl
    obtain ⟨g₂, h₂⟩ := h₁.expect (by decide)
    refine ⟨.grouping, by rw [h.kind_eq]; rfl, ?_, h₂⟩
    exact List.append_eq_nil_iff.mpr ⟨g₁, g₂⟩

theorem completeExprs (hsteps : 2 * n ≤ steps) : CompleteExprs n steps := by
  -- Every turn of the three readers takes a token and at most two steps.
  induction n generalizing steps with
  | zero =>
    constructor
    · intro power w u r hlen h
      exact absurd h.length_pos (by omega)
    · exact complete_zero
    · intro power left w u r hlen h
      exact absurd h.length_pos (by omega)
  | succ n ih =>
    obtain ⟨steps, rfl⟩ : ∃ m, steps = m + 2 := ⟨steps - 2, by omega⟩
    have hparts : CompleteExprs n steps := ih (by omega)
    have hmore : CompleteExprs n (steps + 1) := ih (by omega)
    constructor
    · intro power w u r hlen h hspans hr
      obtain ⟨m, hfactor, hoperands⟩ := spans_expression.mp hspans
      obtain ⟨form, hform, g₁, h₁⟩ := readFactor_complete hparts (by omega) hlen h hfactor
        (next_operands hoperands hr)
      simp only [readExpr, hform]
      have hlt := (opens_factor u m hfactor).2
      exact (hmore.operators power _ _ m r (by omega) h₁ g₁ hoperands hr).mono (by omega)
    · intro w u r hlen h hspans hr
      obtain ⟨form, hform, hread⟩ := readFactor_complete hparts (by omega) hlen h hspans hr
      simp only [readExpr, hform, readOperators_unary]
      exact hread
    · intro power left w u r hlen h hleft hspans hr
      rcases spans_repetition.mp hspans with rfl | ⟨m, hfirst, hothers⟩
      · have hstop := h.next hr
        simp only [endsExpr, Bool.and_eq_true, Option.isNone_iff_eq_none] at hstop
        simp only [readOperators, hstop.2]
        exact ⟨hleft, u, h, Nat.le_refl _, hspans,
          hr.imp (by simp +contextual [endsExpr, Power.blocks])⟩
      · simp only [spans_cons, spans_nil] at hfirst
        obtain ⟨v, hoperator, m, hfactor, rfl⟩ := hfirst
        obtain ⟨k, opPower, form, rfl, hk⟩ := operator_of_spans hoperator
        simp only [readOperators, h.kind_eq, hk]
        split
        next hrank =>
          -- The right operand may stop at an operator, and reading goes on there.
          have hexpression := spans_expression.mpr ⟨m, hfactor, hothers⟩
          obtain ⟨g₁, l, h₁, hle, hrest, -⟩ := hmore.expr opPower _ v r (by grind)
            (h.advance (operator_ne_eof hk)) hexpression hr
          have hleft' : (Expr.operation form left w.ahead
              (w.advance.readExpr .full (steps + 1) opPower).1).gaps = [] := by
            rw [Expr.gaps_operation, hleft, g₁]
            rfl
          exact (hmore.operators power _ _ l r (by grind) h₁ hleft' hrest hr).mono (by grind)
        next hrank => exact ⟨hleft, _, h, Nat.le_refl _, hspans, by simpa [Power.blocks, hk] using hrank⟩

theorem complete_readExpr (hsteps : 2 * n ≤ steps) :
    Complete Expr.gaps (.rule .expression) (Next endsExpr) n
      fun w => w.readExpr .full steps .lowest :=
  (completeExprs hsteps).lowest

end Window
end SlotLang
