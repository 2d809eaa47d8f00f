import SlotLang.Proofs.DeclarationGrammar

/-!
# Statements

The readers of statements are sound and complete.  Reading a statement in front of an alternative is
complete only for statements that the alternative cannot continue; all others take it.
-/

namespace SlotLang

open TokenKind

theorem Designator.membersText_isSome {members : List MemberRef}
    (h : members.flatMap MemberRef.gaps = []) :
    (membersText? members).isSome := by
  induction members with
  | nil => rfl
  | cons m members ih =>
    simp only [List.flatMap_cons, List.append_eq_nil_iff, MemberRef.gaps] at h
    obtain ⟨text, htext⟩ := Option.isSome_iff_exists.mp (ih h.2)
    obtain ⟨dot, name, indices⟩ := m
    cases name with
    | read token => simp [Designator.membersText?, htext, Terminal.value?, Terminal.token?]
    | missing kind next => simp [Terminal.gaps] at h

/-- A designator without gaps can be spelled. -/
theorem Designator.name_isSome {d : Designator} (h : d.gaps = []) : d.name?.isSome := by
  simp only [Designator.gaps, List.append_eq_nil_iff] at h
  obtain ⟨text, htext⟩ := Option.isSome_iff_exists.mp (membersText_isSome h.2.2)
  obtain ⟨head, indices, members⟩ := d
  cases head with
  | read token => simp [Designator.name?, htext, Terminal.value?, Terminal.token?]
  | missing kind next => simp [Terminal.gaps] at h

def StmtForm.opening : StmtForm → TokenKind
  | .designator => .identifier
  | .branch => .kwIf
  | .whileLoop => .kwWhile
  | .forLoop => .kwFor
  | .switch => .kwSwitch
  | .read => .kwRead
  | .write => .kwWrite
  | .block => .openCurly

theorem kind_of_stmtForm {g : Grammar} {k : TokenKind} {form : StmtForm}
    (h : g.stmtForm? k = some form) : k = form.opening := by
  cases g <;> cases k <;> simp_all [Grammar.stmtForm?] <;> subst h <;> rfl

namespace Window

variable {n steps : Nat}

/-! ## Statements without gaps -/

theorem sound_readCondition (g : Grammar) (steps : Nat) :
    Sound Condition.gaps .condition (readCondition g steps) := by
  intro w u h hgaps
  simp only [readCondition, Condition.gaps, List.append_eq_nil_iff] at hgaps ⊢
  obtain ⟨v₁, rfl, h₁⟩ := expect_passes h (by decide) hgaps.1
  obtain ⟨v₂, h₂, htest⟩ := sound_readExpr g steps _ v₁ h₁ hgaps.2.1
  obtain ⟨r, rfl, hr⟩ := expect_passes h₂ (by decide) hgaps.2.2
  exact ⟨r, hr, spans_condition.mpr ⟨v₁, rfl, htest⟩⟩

theorem sound_readAssignment (g : Grammar) (steps : Nat) :
    Sound Assignment.gaps .assignment (readAssignment g steps) := by
  intro w u h hgaps
  unfold readAssignment at hgaps ⊢
  dsimp only at hgaps ⊢
  split
  next heq => simp [heq, Assignment.gaps] at hgaps
  next heq =>
    simp only [heq, Assignment.gaps, List.append_eq_nil_iff] at hgaps
    obtain ⟨v₁, h₁, htarget⟩ := sound_readDesignator steps w u h hgaps.1
    obtain ⟨v₂, rfl, h₂⟩ := expect_read heq h₁ (by decide)
    obtain ⟨r, hr, hvalue⟩ := sound_readExpr g steps _ v₂ h₂ hgaps.2
    exact ⟨r, hr, spans_assignment.mpr ⟨v₂, htarget, hvalue⟩⟩

theorem gaps_readAssign {g : Grammar} {steps : Nat} {target : Designator} {w : Window}
    (h : (w.readAssign g steps target).1.gaps = []) : target.gaps = [] := by
  unfold readAssign at h
  dsimp only at h
  split at h
  all_goals
    simp only [Stmt.gaps, List.append_eq_nil_iff] at h
    exact h.1

theorem gaps_readCall {g : Grammar} {steps : Nat} {callee : Designator} {w : Window}
    (h : (w.readCall g steps callee).1.gaps = []) : callee.gaps = [] := by
  simp only [readCall, Stmt.gaps, List.append_eq_nil_iff] at h
  exact h.1

theorem readAssign_passes {g : Grammar} {steps : Nat} {target : Designator} {w : Window}
    {u : List TokenKind} (h : w.Shows (.assignment :: u))
    (hgaps : (w.readAssign g steps target).1.gaps = []) :
    ∃ r, (w.readAssign g steps target).2.Shows r ∧ ∃ m, Spans (.rule .expression) u m ∧
      Spans Phrase.alternatives.optional m (.semicolon :: r) := by
  have hv := h.advance (by decide)
  unfold readAssign at hgaps ⊢
  dsimp only at hgaps ⊢
  split
  next hkind =>
    simp only [hkind, if_true, Stmt.gaps, List.append_eq_nil_iff] at hgaps
    obtain ⟨v₁, h₁, hvalue⟩ := sound_readExpr g steps _ u hv hgaps.2.1
    obtain ⟨v₂, rfl, h₂⟩ := h₁.passes hkind (by decide)
    obtain ⟨v₃, h₃, hfirst⟩ := sound_readExpr g steps _ v₂ h₂ hgaps.2.2.1
    obtain ⟨v₄, rfl, h₄⟩ := expect_passes h₃ (by decide) hgaps.2.2.2.1
    obtain ⟨v₅, h₅, hsecond⟩ := sound_readExpr g steps _ v₄ h₄ hgaps.2.2.2.2.1
    obtain ⟨r, rfl, hr⟩ := expect_passes h₅ (by decide) hgaps.2.2.2.2.2
    have hmore := spans_alternatives.mpr ⟨v₂, v₄, rfl, hfirst, hsecond⟩
    exact ⟨r, hr, _, hvalue, spans_optional.mpr (.inl hmore)⟩
  next hkind =>
    simp only [hkind, if_false, Stmt.gaps, List.append_eq_nil_iff] at hgaps
    obtain ⟨v₁, h₁, hvalue⟩ := sound_readExpr g steps _ u hv hgaps.2.1
    obtain ⟨r, rfl, hr⟩ := expect_passes h₁ (by decide) hgaps.2.2
    exact ⟨r, hr, _, hvalue, spans_optional.mpr (.inr rfl)⟩

theorem readCall_passes {g : Grammar} {steps : Nat} {callee : Designator} {w : Window}
    {u : List TokenKind} (h : w.Shows (.openParen :: u))
    (hgaps : (w.readCall g steps callee).1.gaps = []) :
    ∃ r, (w.readCall g steps callee).2.Shows r ∧
      Spans (Phrase.rule .expression).commaList.optional u (.closeParen :: .semicolon :: r) := by
  simp only [readCall, Stmt.gaps, List.append_eq_nil_iff] at hgaps ⊢
  obtain ⟨v₁, h₁, harguments⟩ := sound_separatedUnlessClosed (sound_readExpr g steps) steps _ u
    (h.advance (by decide)) hgaps.2.1
  obtain ⟨v₂, rfl, h₂⟩ := expect_passes h₁ (by decide) hgaps.2.2.1
  obtain ⟨r, rfl, hr⟩ := expect_passes h₂ (by decide) hgaps.2.2.2
  exact ⟨r, hr, harguments⟩

theorem sound_readDesignatorStmt (g : Grammar) (steps : Nat) :
    Sound Stmt.gaps .simpleStatement (readDesignatorStmt g steps) := by
  intro w u h hgaps
  unfold readDesignatorStmt at hgaps ⊢
  dsimp only at hgaps ⊢
  split
  next hname =>
    simp only [hname, Stmt.gaps] at hgaps
    have hspelled := Designator.name_isSome hgaps
    simp [hname] at hspelled
  next hname =>
    simp only [hname] at hgaps
    split
    next hkind =>
      simp only [hkind] at hgaps
      obtain ⟨v, hv, htarget⟩ := sound_readDesignator steps w u h (gaps_readAssign hgaps)
      obtain ⟨v₁, rfl, -⟩ := hv.passes hkind (by decide)
      obtain ⟨r, hr, m, hvalue, hmore⟩ := readAssign_passes hv hgaps
      have hassignment := spans_assignment.mpr ⟨v₁, htarget, hvalue⟩
      exact ⟨r, hr, spans_simpleStatement.mpr (.inl ⟨m, hassignment, hmore⟩)⟩
    next hkind =>
      simp only [hkind] at hgaps
      obtain ⟨v, hv, htarget⟩ := sound_readDesignator steps w u h (gaps_readCall hgaps)
      obtain ⟨v₁, rfl, -⟩ := hv.passes hkind (by decide)
      obtain ⟨r, hr, harguments⟩ := readCall_passes hv hgaps
      exact ⟨r, hr, spans_simpleStatement.mpr (.inr (.inl ⟨v₁, htarget, harguments⟩))⟩
    next hassign hparen =>
      split at hgaps
      · contradiction
      · contradiction
      · simp [Stmt.gaps] at hgaps

theorem soundAt_readRead (steps : Nat) :
    SoundAt .kwRead Stmt.gaps .simpleStatement (readRead steps) := by
  intro w u hkind h hgaps
  obtain ⟨v, rfl, hv⟩ := h.passes hkind (by decide)
  simp only [readRead, Stmt.gaps, List.append_eq_nil_iff] at hgaps ⊢
  obtain ⟨v₁, h₁, htarget⟩ := sound_readDesignator steps _ v hv hgaps.1
  obtain ⟨r, rfl, hr⟩ := expect_passes h₁ (by decide) hgaps.2
  exact ⟨r, hr, spans_simpleStatement.mpr (.inr (.inr (.inr (.inl ⟨v, rfl, htarget⟩))))⟩

theorem soundAt_readWrite (g : Grammar) (steps : Nat) :
    SoundAt .kwWrite Stmt.gaps .simpleStatement (readWrite g steps) := by
  intro w u hkind h hgaps
  obtain ⟨v, rfl, hv⟩ := h.passes hkind (by decide)
  simp only [readWrite, Stmt.gaps, List.append_eq_nil_iff] at hgaps ⊢
  obtain ⟨v₁, h₁, hitems⟩ := sound_separated (sound_readExpr g steps) steps _ v hv hgaps.1
  obtain ⟨r, rfl, hr⟩ := expect_passes h₁ (by decide) hgaps.2
  exact ⟨r, hr, spans_simpleStatement.mpr (.inr (.inr (.inr (.inr (.inl ⟨v, rfl, hitems⟩)))))⟩

/-- The readers of statements and of lists of them, for one number of steps. -/
structure SoundStmts (g : Grammar) (steps : Nat) : Prop where
  stmt : Sound Stmt.gaps (.rule .statement) (readStmt g steps)
  stmts : Sound stmtsGaps (.repetition (.rule .statement)) (readStmts g steps)
  cases : Sound casesGaps (.repetition .case) (readCases g steps)
  block : Sound blockGaps (.repetition .blockItem) (readBlockItems g steps)

/-- The head of a switch and its cases, whether or not it has a default. -/
theorem gaps_readSwitch {g : Grammar} {steps : Nat} {w : Window}
    (h : (w.readStmtForm g (steps + 1) .switch).1.gaps = []) :
    let opening := w.advance.expect .openParen
    let subject := opening.2.readExpr g steps .lowest
    let closing := subject.2.expect .closeParen
    let brace := closing.2.expect .openCurly
    opening.1.gaps = [] ∧ subject.1.gaps = [] ∧ closing.1.gaps = [] ∧ brace.1.gaps = [] ∧
      casesGaps (brace.2.readCases g steps).1 = [] := by
  simp only [readStmtForm] at h
  split at h
  all_goals
    simp only [Stmt.gaps, List.append_eq_nil_iff] at h
    exact ⟨h.1, h.2.1, h.2.2.1, h.2.2.2.1, h.2.2.2.2.1⟩

theorem soundAt_readSwitch {g : Grammar} {steps : Nat} (hparts : SoundStmts g steps) :
    SoundAt .kwSwitch Stmt.gaps .simpleStatement (readStmtForm g (steps + 1) .switch) := by
  intro w u hkind h hgaps
  obtain ⟨hopening, hsubject, hclosing, hbrace, hcases⟩ := gaps_readSwitch hgaps
  obtain ⟨v, rfl, hv⟩ := h.passes hkind (by decide)
  obtain ⟨v₁, rfl, h₁⟩ := expect_passes hv (by decide) hopening
  obtain ⟨v₂, h₂, hsubject⟩ := sound_readExpr g steps _ v₁ h₁ hsubject
  obtain ⟨v₃, rfl, h₃⟩ := expect_passes h₂ (by decide) hclosing
  obtain ⟨v₄, rfl, h₄⟩ := expect_passes h₃ (by decide) hbrace
  obtain ⟨v₅, h₅, hcases⟩ := hparts.cases _ v₄ h₄ hcases
  have hcondition := spans_condition.mpr ⟨v₁, rfl, hsubject⟩
  have hspans : ∀ r, Spans Phrase.fallback.optional v₅ (.closeCurly :: r) →
      Spans .simpleStatement (.kwSwitch :: .openParen :: v₁) r := fun r hfallback =>
    spans_simpleStatement.mpr
      (.inr (.inr (.inl ⟨_, v₄, v₅, rfl, hcondition, hcases, hfallback⟩)))
  simp only [readStmtForm] at hgaps ⊢
  split
  next hdefault =>
    simp only [hdefault, if_true, Stmt.gaps, fallbackGaps, Option.map_some, Option.getD_some,
      List.append_eq_nil_iff] at hgaps
    obtain ⟨v₆, rfl, h₆⟩ := h₅.passes hdefault (by decide)
    obtain ⟨v₇, rfl, h₇⟩ := expect_passes h₆ (by decide) hgaps.2.2.2.2.2.1
    obtain ⟨v₈, h₈, hbody⟩ := hparts.stmts _ v₇ h₇ hgaps.2.2.2.2.2.2.1
    obtain ⟨r, rfl, hr⟩ := expect_passes h₈ (by decide) hgaps.2.2.2.2.2.2.2
    exact ⟨r, hr, hspans r (spans_optional.mpr (.inl (spans_fallback.mpr ⟨v₇, rfl, hbody⟩)))⟩
  next hdefault =>
    simp only [hdefault, if_false, Stmt.gaps, List.append_eq_nil_iff] at hgaps
    obtain ⟨r, rfl, hr⟩ := expect_passes h₅ (by decide) hgaps.2.2.2.2.2.2.2
    exact ⟨r, hr, hspans r (spans_optional.mpr (.inr rfl))⟩

theorem soundAt_readStmtForm {g : Grammar} {steps : Nat} {form : StmtForm}
    (hparts : ∀ m < steps, SoundStmts g m) :
    SoundAt form.opening Stmt.gaps (.rule .statement) (readStmtForm g steps form) := by
  intro w u hkind h hgaps
  cases steps with
  | zero => simp [readStmtForm, Stmt.gaps] at hgaps
  | succ steps =>
  have hparts := hparts steps (by omega)
  cases form with
  | designator =>
    obtain ⟨r, hr, hspans⟩ := sound_readDesignatorStmt g steps w u h hgaps
    exact ⟨r, hr, spans_statement.mpr (.inl hspans)⟩
  | branch =>
    obtain ⟨v, rfl, hv⟩ := h.passes hkind (by decide)
    simp only [readStmtForm] at hgaps ⊢
    split
    next helse =>
      simp only [helse, if_true, Stmt.gaps, List.append_eq_nil_iff] at hgaps
      obtain ⟨v₁, h₁, hcondition⟩ := sound_readCondition g steps _ v hv hgaps.1
      obtain ⟨v₂, h₂, hbody⟩ := hparts.stmt _ v₁ h₁ hgaps.2.1
      obtain ⟨v₃, rfl, h₃⟩ := h₂.passes helse (by decide)
      obtain ⟨r, hr, hother⟩ := hparts.stmt _ v₃ h₃ hgaps.2.2
      exact ⟨r, hr, spans_statement.mpr
        (.inr (.inr (.inl ⟨v, v₁, v₃, rfl, hcondition, hbody, hother⟩)))⟩
    next helse =>
      simp only [helse, if_false, Stmt.gaps, List.append_eq_nil_iff] at hgaps
      obtain ⟨v₁, h₁, hcondition⟩ := sound_readCondition g steps _ v hv hgaps.1
      obtain ⟨r, hr, hbody⟩ := hparts.stmt _ v₁ h₁ hgaps.2
      exact ⟨r, hr, spans_statement.mpr (.inr (.inl ⟨v, v₁, rfl, hcondition, hbody⟩))⟩
  | whileLoop =>
    obtain ⟨v, rfl, hv⟩ := h.passes hkind (by decide)
    simp only [readStmtForm, Stmt.gaps, List.append_eq_nil_iff] at hgaps ⊢
    obtain ⟨v₁, h₁, hcondition⟩ := sound_readCondition g steps _ v hv hgaps.1
    obtain ⟨r, hr, hbody⟩ := hparts.stmt _ v₁ h₁ hgaps.2
    exact ⟨r, hr, spans_statement.mpr
      (.inr (.inr (.inr (.inl ⟨v, v₁, rfl, hcondition, hbody⟩))))⟩
  | forLoop =>
    obtain ⟨v, rfl, hv⟩ := h.passes hkind (by decide)
    simp only [readStmtForm, Stmt.gaps, List.append_eq_nil_iff] at hgaps ⊢
    obtain ⟨v₁, rfl, h₁⟩ := expect_passes hv (by decide) hgaps.1
    obtain ⟨v₂, h₂, hinit⟩ := sound_readAssignment g steps _ v₁ h₁ hgaps.2.1
    obtain ⟨v₃, rfl, h₃⟩ := expect_passes h₂ (by decide) hgaps.2.2.1
    obtain ⟨v₄, h₄, htest⟩ := sound_readExpr g steps _ v₃ h₃ hgaps.2.2.2.1
    obtain ⟨v₅, rfl, h₅⟩ := expect_passes h₄ (by decide) hgaps.2.2.2.2.1
    obtain ⟨v₆, h₆, hstep⟩ := sound_readAssignment g steps _ v₅ h₅ hgaps.2.2.2.2.2.1
    obtain ⟨v₇, rfl, h₇⟩ := expect_passes h₆ (by decide) hgaps.2.2.2.2.2.2.1
    obtain ⟨r, hr, hbody⟩ := hparts.stmt _ v₇ h₇ hgaps.2.2.2.2.2.2.2
    have hhead := spans_loopHead.mpr ⟨v₁, v₃, v₅, rfl, hinit, htest, hstep⟩
    exact ⟨r, hr, spans_statement.mpr (.inr (.inr (.inr (.inr ⟨_, v₇, rfl, hhead, hbody⟩))))⟩
  | switch =>
    obtain ⟨r, hr, hspans⟩ := soundAt_readSwitch hparts w u hkind h hgaps
    exact ⟨r, hr, spans_statement.mpr (.inl hspans)⟩
  | read =>
    obtain ⟨r, hr, hspans⟩ := soundAt_readRead steps w u hkind h hgaps
    exact ⟨r, hr, spans_statement.mpr (.inl hspans)⟩
  | write =>
    obtain ⟨r, hr, hspans⟩ := soundAt_readWrite g steps w u hkind h hgaps
    exact ⟨r, hr, spans_statement.mpr (.inl hspans)⟩
  | block =>
    obtain ⟨v, rfl, hv⟩ := h.passes hkind (by decide)
    simp only [readStmtForm, Stmt.gaps, List.append_eq_nil_iff] at hgaps ⊢
    obtain ⟨v₁, h₁, hitems⟩ := hparts.block _ v hv hgaps.1
    obtain ⟨r, rfl, hr⟩ := expect_passes h₁ (by decide) hgaps.2
    have hspans := spans_simpleStatement.mpr
      (.inr (.inr (.inr (.inr (.inr ⟨v, rfl, hitems⟩)))))
    exact ⟨r, hr, spans_statement.mpr (.inl hspans)⟩

theorem soundStmts (g : Grammar) (steps : Nat) : SoundStmts g steps := by
  induction steps using Nat.strongRecOn with
  | ind steps ih =>
  cases steps with
  | zero =>
    constructor
    · intro w u _ hgaps
      simp [readStmt, Stmt.gaps] at hgaps
    all_goals
      intro w u h _
      exact ⟨u, h, .stop _ u⟩
  | succ steps =>
    have hsteps := ih steps (by omega)
    constructor
    · intro w u h hgaps
      unfold readStmt at hgaps ⊢
      split
      next hform => simp [hform, Stmt.gaps] at hgaps
      next form hform =>
        rw [hform] at hgaps
        have hparts : ∀ m < steps, SoundStmts g m := fun m hm => ih m (by omega)
        exact soundAt_readStmtForm hparts w u (kind_of_stmtForm hform) h hgaps
    · intro w u h hgaps
      unfold readStmts at hgaps ⊢
      split
      next hstart =>
        simp only [hstart, if_true, stmtsGaps, List.append_eq_nil_iff] at hgaps
        obtain ⟨m, hm, hfirst⟩ := hsteps.stmt w u h hgaps.1
        obtain ⟨r, hr, hmore⟩ := hsteps.stmts _ m hm hgaps.2
        exact ⟨r, hr, .again hfirst hmore⟩
      next => exact ⟨u, h, .stop _ u⟩
    · intro w u h hgaps
      unfold readCases at hgaps ⊢
      split
      next hkind =>
        simp only [hkind, if_true, casesGaps, List.append_eq_nil_iff] at hgaps
        obtain ⟨v, rfl, hv⟩ := h.passes hkind (by decide)
        obtain ⟨v₁, h₁, hlabel⟩ := sound_readExpr g steps _ v hv hgaps.1
        obtain ⟨v₂, rfl, h₂⟩ := expect_passes h₁ (by decide) hgaps.2.1
        obtain ⟨v₃, h₃, hbody⟩ := hsteps.stmts _ v₂ h₂ hgaps.2.2.1
        obtain ⟨r, hr, hmore⟩ := hsteps.cases _ v₃ h₃ hgaps.2.2.2
        exact ⟨r, hr, .again (spans_case.mpr ⟨v, v₂, rfl, hlabel, hbody⟩) hmore⟩
      next => exact ⟨u, h, .stop _ u⟩
    · intro w u h hgaps
      unfold readBlockItems at hgaps ⊢
      split
      next => exact ⟨u, h, .stop _ u⟩
      next hend =>
        rw [if_neg hend] at hgaps
        split
        next d w' heq =>
          simp only [heq, blockGaps, BlockItem.gaps, List.append_eq_nil_iff] at hgaps
          obtain ⟨m, hm, hfirst⟩ := readDeclaration_passes heq h hgaps.1
          obtain ⟨r, hr, hmore⟩ := hsteps.block _ m hm hgaps.2
          exact ⟨r, hr, .again (spans_blockItem.mpr (.inl hfirst)) hmore⟩
        next hnone =>
          rw [hnone] at hgaps
          split
          next hstart =>
            simp only [hstart, if_true, blockGaps, BlockItem.gaps,
              List.append_eq_nil_iff] at hgaps
            obtain ⟨m, hm, hfirst⟩ := hsteps.stmt w u h hgaps.1
            obtain ⟨r, hr, hmore⟩ := hsteps.block _ m hm hgaps.2
            exact ⟨r, hr, .again (spans_blockItem.mpr (.inr hfirst)) hmore⟩
          next hstart => simp [hstart, blockGaps, BlockItem.gaps] at hgaps

/-! ## Statements that derive from the grammar -/

theorem complete_readCondition (hsteps : 2 * n ≤ steps) :
    Complete Condition.gaps .condition Anything n (readCondition .full steps) := by
  intro w u r hlen h hspans _
  obtain ⟨m, rfl, htest⟩ := spans_condition.mp hspans
  obtain ⟨g₁, h₁⟩ := h.expect (by decide)
  obtain ⟨g₂, h₂⟩ := complete_readExpr hsteps _ m _ (by grind) h₁ htest rfl
  obtain ⟨g₃, h₃⟩ := h₂.expect (by decide)
  simp only [readCondition, Condition.gaps, List.append_eq_nil_iff]
  exact ⟨⟨g₁, g₂, g₃⟩, h₃⟩

theorem complete_readAssignment (hsteps : 2 * n ≤ steps) :
    Complete Assignment.gaps .assignment (Next endsExpr) n (readAssignment .full steps) := by
  intro w u r hlen h hspans hr
  have hle : n ≤ steps := by omega
  obtain ⟨m, htarget, hvalue⟩ := spans_assignment.mp hspans
  obtain ⟨g₁, h₁⟩ := complete_readDesignator hle w u _ hlen h htarget rfl
  obtain ⟨g₂, h₂⟩ := complete_readExpr hsteps _ m r (by grind) (h₁.advance (by decide)) hvalue hr
  simp only [readAssignment, h₁.expect_eq, Assignment.gaps, List.append_eq_nil_iff]
  exact ⟨⟨g₁, g₂⟩, h₂⟩

theorem readAssign_complete (hsteps : 2 * n ≤ steps) {target : Designator} {w : Window}
    {u m r : List TokenKind} (htarget : target.gaps = []) (hlen : u.length ≤ n)
    (h : w.Shows (.assignment :: u)) (hvalue : Spans (.rule .expression) u m)
    (hmore : Spans Phrase.alternatives.optional m (.semicolon :: r)) :
    (w.readAssign .full steps target).1.gaps = [] ∧
      (w.readAssign .full steps target).2.Shows r := by
  have hread := complete_readExpr hsteps
  have hu := h.advance (by decide)
  unfold readAssign
  rcases spans_optional.mp hmore with halternatives | rfl
  · obtain ⟨l, v, rfl, hfirst, hsecond⟩ := spans_alternatives.mp halternatives
    obtain ⟨g₁, h₁⟩ := hread _ u _ hlen hu hvalue rfl
    obtain ⟨g₂, h₂⟩ := hread _ l _ (by grind) (h₁.advance (by decide)) hfirst rfl
    obtain ⟨g₃, h₃⟩ := h₂.expect (by decide)
    obtain ⟨g₄, h₄⟩ := hread _ v _ (by grind) h₃ hsecond rfl
    obtain ⟨g₅, h₅⟩ := h₄.expect (by decide)
    simp only [if_pos h₁.kind_eq, Stmt.gaps, List.append_eq_nil_iff]
    exact ⟨⟨htarget, g₁, g₂, g₃, g₄, g₅⟩, h₅⟩
  · obtain ⟨g₁, h₁⟩ := hread _ u _ hlen hu hvalue rfl
    obtain ⟨g₂, h₂⟩ := h₁.expect (by decide)
    simp only [h₁.kind_eq, reduceCtorEq, if_false, Stmt.gaps, List.append_eq_nil_iff]
    exact ⟨⟨htarget, g₁, g₂⟩, h₂⟩

theorem readCall_complete (hsteps : 2 * n ≤ steps) {callee : Designator} {w : Window}
    {u r : List TokenKind} (hcallee : callee.gaps = []) (hlen : u.length ≤ n)
    (h : w.Shows (.openParen :: u))
    (hspans : Spans (Phrase.rule .expression).commaList.optional u
      (.closeParen :: .semicolon :: r)) :
    (w.readCall .full steps callee).1.gaps = [] ∧ (w.readCall .full steps callee).2.Shows r := by
  have hle : n ≤ steps := by omega
  have hopens : Opens (· != .closeParen) (.rule .expression) := opens_expression.imp (by
    intro k
    cases k <;> simp [Grammar.factorForm?])
  obtain ⟨g₁, h₁⟩ := complete_separatedUnlessClosed (complete_readExpr hsteps) hopens rfl rfl hle
    _ u _ hlen (h.advance (by decide)) hspans rfl
  obtain ⟨g₂, h₂⟩ := h₁.expect (by decide)
  obtain ⟨g₃, h₃⟩ := h₂.expect (by decide)
  simp only [readCall, Stmt.gaps, List.append_eq_nil_iff]
  exact ⟨⟨hcallee, g₁, g₂, g₃⟩, h₃⟩

/-- A statement that starts with a designator, in front of one kind more than its parts. -/
theorem readDesignatorStmt_complete (hsteps : 2 * n + 1 ≤ steps) {w : Window}
    {u r : List TokenKind} (hlen : u.length ≤ n + 1) (h : w.Shows u)
    (hspans : (∃ m, Spans .assignment u m ∧
        Spans Phrase.alternatives.optional m (.semicolon :: r)) ∨
      ∃ m, Spans (.rule .designator) u (.openParen :: m) ∧
        Spans (Phrase.rule .expression).commaList.optional m (.closeParen :: .semicolon :: r)) :
    w.kind = .identifier ∧ (w.readDesignatorStmt .full steps).1.gaps = [] ∧
      (w.readDesignatorStmt .full steps).2.Shows r := by
  have hparts : 2 * n ≤ steps := by omega
  have hle : n + 1 ≤ steps := by omega
  have htarget := complete_readDesignator hle
  unfold readDesignatorStmt
  rcases hspans with ⟨m, hassignment, hmore⟩ | ⟨m, hcallee, harguments⟩
  · obtain ⟨l, hdesignator, hvalue⟩ := spans_assignment.mp hassignment
    obtain ⟨g₁, h₁⟩ := htarget w u _ hlen h hdesignator rfl
    obtain ⟨name, hname⟩ := Option.isSome_iff_exists.mp (Designator.name_isSome g₁)
    obtain ⟨hnext, hlt⟩ := opens_designator u _ hdesignator
    simp only [hname, h₁.kind_eq]
    exact ⟨beq_iff_eq.mp (h.next hnext),
      readAssign_complete hparts g₁ (by grind) h₁ hvalue hmore⟩
  · obtain ⟨g₁, h₁⟩ := htarget w u _ hlen h hcallee rfl
    obtain ⟨name, hname⟩ := Option.isSome_iff_exists.mp (Designator.name_isSome g₁)
    obtain ⟨hnext, hlt⟩ := opens_designator u _ hcallee
    simp only [hname, h₁.kind_eq]
    exact ⟨beq_iff_eq.mp (h.next hnext), readCall_complete hparts g₁ (by grind) h₁ harguments⟩

def PassesStmt (steps : Nat) (u r : List TokenKind) : Prop :=
  ∀ w : Window, w.Shows u →
    (w.readStmt .full steps).1.gaps = [] ∧ (w.readStmt .full steps).2.Shows r

structure CompleteStmts (n : Nat) : Prop where
  stmt : ∀ steps, 3 * n ≤ steps → ∀ u r : List TokenKind, u.length ≤ n →
    Spans (.rule .statement) u r → Next (· != .kwElse) r → PassesStmt steps u r
  closed : ∀ steps, 3 * n ≤ steps → ∀ u r : List TokenKind, u.length ≤ n → Closed u r →
    PassesStmt steps u r
  stmts : ∀ steps, 3 * n + 1 ≤ steps →
    Complete stmtsGaps (.repetition (.rule .statement)) (Next endsStmts) n (readStmts .full steps)
  cases : ∀ steps, 3 * n + 1 ≤ steps →
    Complete casesGaps (.repetition .case) (Next fun k => endsStmts k && k != .kwCase) n
      (readCases .full steps)
  block : ∀ steps, 3 * n + 1 ≤ steps →
    Complete blockGaps (.repetition .blockItem) (Next (· == .closeCurly)) n
      (readBlockItems .full steps)

theorem readStmt_eq (form : StmtForm) {w : Window} (hkind : w.kind = form.opening) :
    w.readStmt .full (steps + 1) = w.readStmtForm .full steps form := by
  have hform : Grammar.full.stmtForm? w.kind = some form := by
    rw [hkind]
    cases form <;> rfl
  rw [readStmt, hform]

theorem readSwitch_complete (ih : CompleteStmts n) (hsteps : 3 * n + 1 ≤ steps) {w : Window}
    {u m l r : List TokenKind} (hlen : u.length ≤ n) (h : w.Shows (.kwSwitch :: u))
    (hcondition : Spans .condition u (.openCurly :: m)) (hcases : Spans (.repetition .case) m l)
    (hfallback : Spans Phrase.fallback.optional l (.closeCurly :: r)) :
    (w.readStmtForm .full (steps + 1) .switch).1.gaps = [] ∧
      (w.readStmtForm .full (steps + 1) .switch).2.Shows r := by
  have hexpr : 2 * n ≤ steps := by omega
  obtain ⟨v, rfl, hsubject⟩ := spans_condition.mp hcondition
  obtain ⟨g₁, h₁⟩ := (h.advance (by decide)).expect (by decide)
  obtain ⟨g₂, h₂⟩ := complete_readExpr hexpr _ v _ (by grind) h₁ hsubject rfl
  obtain ⟨g₃, h₃⟩ := h₂.expect (by decide)
  obtain ⟨g₄, h₄⟩ := h₃.expect (by decide)
  simp only [readStmtForm]
  rcases spans_optional.mp hfallback with hpresent | rfl
  · obtain ⟨v, rfl, hbody⟩ := spans_fallback.mp hpresent
    obtain ⟨g₅, h₅⟩ := ih.cases steps hsteps _ m _ (by grind) h₄ hcases rfl
    obtain ⟨g₆, h₆⟩ := (h₅.advance (by decide)).expect (by decide)
    obtain ⟨g₇, h₇⟩ := ih.stmts steps hsteps _ v _ (by grind) h₆ hbody rfl
    obtain ⟨g₈, h₈⟩ := h₇.expect (by decide)
    simp only [if_pos h₅.kind_eq, Stmt.gaps, fallbackGaps, Option.map_some, Option.getD_some,
      List.append_eq_nil_iff]
    exact ⟨⟨g₁, g₂, g₃, g₄, g₅, g₆, g₇, g₈⟩, h₈⟩
  · obtain ⟨g₅, h₅⟩ := ih.cases steps hsteps _ m _ (by grind) h₄ hcases rfl
    obtain ⟨g₆, h₆⟩ := h₅.expect (by decide)
    simp only [h₅.kind_eq, reduceCtorEq, if_false, Stmt.gaps, stmtsGaps, List.append_eq_nil_iff]
    exact ⟨⟨g₁, g₂, g₃, g₄, g₅, rfl, trivial, g₆⟩, h₆⟩

theorem passes_simple (ih : CompleteStmts n) (hsteps : 3 * n + 1 ≤ steps) {u r : List TokenKind}
    (hlen : u.length ≤ n + 1) (hspans : Spans .simpleStatement u r) :
    PassesStmt (steps + 2) u r := by
  have hexpr : 2 * n ≤ steps := by omega
  have hle : n ≤ steps := by omega
  have hdesignator : 2 * n + 1 ≤ steps := by omega
  intro w h
  rcases spans_simpleStatement.mp hspans with hassignment | hcall |
    ⟨l, m, v, rfl, hcondition, hcases, hfallback⟩ | ⟨m, rfl, htarget⟩ | ⟨m, rfl, hitems⟩ |
    ⟨m, rfl, hitems⟩
  · obtain ⟨hkind, hread⟩ := readDesignatorStmt_complete hdesignator hlen h (.inl hassignment)
    rw [readStmt_eq .designator hkind]
    exact hread
  · obtain ⟨hkind, hread⟩ := readDesignatorStmt_complete hdesignator hlen h (.inr hcall)
    rw [readStmt_eq .designator hkind]
    exact hread
  · rw [readStmt_eq .switch h.kind_eq]
    exact readSwitch_complete ih hsteps (by grind) h hcondition hcases hfallback
  · rw [readStmt_eq .read h.kind_eq]
    obtain ⟨g₁, h₁⟩ := complete_readDesignator hle _ m _ (by grind) (h.advance (by decide)) htarget
      rfl
    obtain ⟨g₂, h₂⟩ := h₁.expect (by decide)
    simp only [readStmtForm, readRead, Stmt.gaps, List.append_eq_nil_iff]
    exact ⟨⟨g₁, g₂⟩, h₂⟩
  · rw [readStmt_eq .write h.kind_eq]
    obtain ⟨g₁, h₁⟩ := complete_separated (complete_readExpr hexpr) rfl hle _ m _ (by grind)
      (h.advance (by decide)) hitems rfl
    obtain ⟨g₂, h₂⟩ := h₁.expect (by decide)
    simp only [readStmtForm, readWrite, Stmt.gaps, List.append_eq_nil_iff]
    exact ⟨⟨g₁, g₂⟩, h₂⟩
  · rw [readStmt_eq .block h.kind_eq]
    obtain ⟨g₁, h₁⟩ := ih.block steps hsteps _ m _ (by grind) (h.advance (by decide)) hitems rfl
    obtain ⟨g₂, h₂⟩ := h₁.expect (by decide)
    simp only [readStmtForm, Stmt.gaps, List.append_eq_nil_iff]
    exact ⟨⟨g₁, g₂⟩, h₂⟩

section

variable {l m v r : List TokenKind}

theorem passes_branch (hsteps : 2 * n ≤ steps) (hlen : l.length ≤ n)
    (hcondition : Spans .condition l m) (hbody : PassesStmt steps m r)
    (hr : Next (· != .kwElse) r) : PassesStmt (steps + 2) (.kwIf :: l) r := by
  intro w h
  rw [readStmt_eq .branch h.kind_eq]
  obtain ⟨g₁, h₁⟩ := complete_readCondition hsteps _ l m hlen (h.advance (by decide)) hcondition
    trivial
  obtain ⟨g₂, h₂⟩ := hbody _ h₁
  have hkind := h₂.next hr
  rw [bne_iff_ne] at hkind
  simp only [readStmtForm, if_neg hkind, Stmt.gaps, List.append_eq_nil_iff]
  exact ⟨⟨g₁, g₂⟩, h₂⟩

theorem passes_branchElse (hsteps : 2 * n ≤ steps) (hlen : l.length ≤ n)
    (hcondition : Spans .condition l m) (hbody : PassesStmt steps m (.kwElse :: v))
    (hother : PassesStmt steps v r) : PassesStmt (steps + 2) (.kwIf :: l) r := by
  intro w h
  rw [readStmt_eq .branch h.kind_eq]
  obtain ⟨g₁, h₁⟩ := complete_readCondition hsteps _ l m hlen (h.advance (by decide)) hcondition
    trivial
  obtain ⟨g₂, h₂⟩ := hbody _ h₁
  obtain ⟨g₃, h₃⟩ := hother _ (h₂.advance (by decide))
  simp only [readStmtForm, if_pos h₂.kind_eq, Stmt.gaps, List.append_eq_nil_iff]
  exact ⟨⟨g₁, g₂, g₃⟩, h₃⟩

theorem passes_whileLoop (hsteps : 2 * n ≤ steps) (hlen : l.length ≤ n)
    (hcondition : Spans .condition l m) (hbody : PassesStmt steps m r) :
    PassesStmt (steps + 2) (.kwWhile :: l) r := by
  intro w h
  rw [readStmt_eq .whileLoop h.kind_eq]
  obtain ⟨g₁, h₁⟩ := complete_readCondition hsteps _ l m hlen (h.advance (by decide)) hcondition
    trivial
  obtain ⟨g₂, h₂⟩ := hbody _ h₁
  simp only [readStmtForm, Stmt.gaps, List.append_eq_nil_iff]
  exact ⟨⟨g₁, g₂⟩, h₂⟩

theorem passes_forLoop (hsteps : 2 * n ≤ steps) (hlen : l.length ≤ n)
    (hhead : Spans .loopHead l m) (hbody : PassesStmt steps m r) :
    PassesStmt (steps + 2) (.kwFor :: l) r := by
  intro w h
  rw [readStmt_eq .forLoop h.kind_eq]
  obtain ⟨u₁, u₂, u₃, rfl, hinit, htest, hstep⟩ := spans_loopHead.mp hhead
  obtain ⟨g₁, h₁⟩ := (h.advance (by decide)).expect (by decide)
  obtain ⟨g₂, h₂⟩ := complete_readAssignment hsteps _ u₁ _ (by grind) h₁ hinit rfl
  obtain ⟨g₃, h₃⟩ := h₂.expect (by decide)
  obtain ⟨g₄, h₄⟩ := complete_readExpr hsteps _ u₂ _ (by grind) h₃ htest rfl
  obtain ⟨g₅, h₅⟩ := h₄.expect (by decide)
  obtain ⟨g₆, h₆⟩ := complete_readAssignment hsteps _ u₃ _ (by grind) h₅ hstep rfl
  obtain ⟨g₇, h₇⟩ := h₆.expect (by decide)
  obtain ⟨g₈, h₈⟩ := hbody _ h₇
  simp only [readStmtForm, Stmt.gaps, List.append_eq_nil_iff]
  exact ⟨⟨g₁, g₂, g₃, g₄, g₅, g₆, g₇, g₈⟩, h₈⟩

end

theorem passes_closed (ih : CompleteStmts n) (hsteps : 3 * n + 1 ≤ steps) {u r : List TokenKind}
    (hlen : u.length ≤ n + 1) (h : Closed u r) : PassesStmt (steps + 2) u r := by
  have hexpr : 2 * n ≤ steps := by omega
  have hpart := ih.closed steps (by omega)
  cases h with
  | simple hspans => exact passes_simple ih hsteps hlen hspans
  | @branchElse l m v _ hcondition hbody hother =>
    have hle := hbody.spans.length_le
    exact passes_branchElse hexpr (by grind) hcondition (hpart m _ (by grind) hbody)
      (hpart v r (by grind) hother)
  | @whileLoop l m _ hcondition hbody =>
    exact passes_whileLoop hexpr (by grind) hcondition (hpart m r (by grind) hbody)
  | @forLoop l m _ hhead hbody =>
    exact passes_forLoop hexpr (by grind) hhead (hpart m r (by grind) hbody)

theorem passes_statement (ih : CompleteStmts n) (hsteps : 3 * n + 1 ≤ steps) {u r : List TokenKind}
    (hlen : u.length ≤ n + 1) (hspans : Spans (.rule .statement) u r)
    (hr : Next (· != .kwElse) r) : PassesStmt (steps + 2) u r := by
  have hexpr : 2 * n ≤ steps := by omega
  have hpart := ih.stmt steps (by omega)
  rcases spans_statement.mp hspans with hsimple | ⟨l, m, rfl, hcondition, hbody⟩ |
    ⟨l, m, v, rfl, hcondition, hbody, hother⟩ | ⟨l, m, rfl, hcondition, hbody⟩ |
    ⟨l, m, rfl, hhead, hbody⟩
  · exact passes_simple ih hsteps hlen hsimple
  · exact passes_branch hexpr (by grind) hcondition (hpart m r (by grind) hbody hr) hr
  · -- Reading gives the alternative to the body if the body can take it.
    rcases closed_or_extends hbody hother with hclosed | hextended
    · exact passes_branchElse hexpr (by grind) hcondition
        (ih.closed steps (by omega) m _ (by grind) hclosed) (hpart v r (by grind) hother hr)
    · exact passes_branch hexpr (by grind) hcondition (hpart m r (by grind) hextended hr) hr
  · exact passes_whileLoop hexpr (by grind) hcondition (hpart m r (by grind) hbody hr)
  · exact passes_forLoop hexpr (by grind) hhead (hpart m r (by grind) hbody hr)

theorem completeStmts (n : Nat) : CompleteStmts n := by
  -- A list needs one step more than the statement in front of it, and a statement three for each of
  -- its tokens: one for the choice of its form, one for the form and one for a list in it.
  induction n with
  | zero =>
    constructor
    · intro steps _ u r hlen _ _ w h
      exact absurd h.length_pos (by omega)
    · intro steps _ u r hlen _ w h
      exact absurd h.length_pos (by omega)
    all_goals exact fun steps _ => complete_zero
  | succ n ih =>
    have hstmt : ∀ steps, 3 * (n + 1) ≤ steps → ∀ u r : List TokenKind, u.length ≤ n + 1 →
        Spans (.rule .statement) u r → Next (· != .kwElse) r → PassesStmt steps u r := by
      intro steps hsteps u r hlen hspans hr
      obtain ⟨steps, rfl⟩ : ∃ m, steps = m + 2 := ⟨steps - 2, by omega⟩
      exact passes_statement ih (by omega) hlen hspans hr
    constructor
    · exact hstmt
    · intro steps hsteps u r hlen hclosed
      obtain ⟨steps, rfl⟩ : ∃ m, steps = m + 2 := ⟨steps - 2, by omega⟩
      exact passes_closed ih (by omega) hlen hclosed
    · intro steps hsteps w u r hlen h hspans hr
      obtain ⟨steps, rfl⟩ : ∃ m, steps = m + 1 := ⟨steps - 1, by omega⟩
      unfold readStmts
      rcases spans_repetition.mp hspans with rfl | ⟨m, hfirst, hmore⟩
      · have hstop := h.next hr
        simp only [endsStmts, Bool.and_eq_true, Bool.not_eq_true'] at hstop
        rw [if_neg (by simp [hstop.1])]
        exact ⟨rfl, h⟩
      · obtain ⟨hnext, hlt⟩ := opens_statement u m hfirst
        have hm : Next (· != .kwElse) m := next_statements hmore hr
        rw [if_pos (h.next hnext)]
        obtain ⟨g₁, h₁⟩ := hstmt steps (by omega) u m hlen hfirst hm w h
        obtain ⟨g₂, h₂⟩ := ih.stmts steps (by omega) _ m r (by omega) h₁ hmore hr
        simp only [stmtsGaps, List.append_eq_nil_iff]
        exact ⟨⟨g₁, g₂⟩, h₂⟩
    · intro steps hsteps w u r hlen h hspans hr
      obtain ⟨steps, rfl⟩ : ∃ m, steps = m + 1 := ⟨steps - 1, by omega⟩
      unfold readCases
      rcases spans_repetition.mp hspans with rfl | ⟨m, hfirst, hmore⟩
      · have hstop := h.next hr
        simp only [Bool.and_eq_true, bne_iff_ne] at hstop
        rw [if_neg hstop.2]
        exact ⟨rfl, h⟩
      · obtain ⟨l, v, rfl, hlabel, hbody⟩ := spans_case.mp hfirst
        rw [if_pos h.kind_eq]
        have hm : Next endsStmts m :=
          opens_case.next_repetition hmore (hr.imp (by simp +contextual))
        have hexpr : 2 * n ≤ steps := by omega
        obtain ⟨g₁, h₁⟩ := complete_readExpr hexpr _ l _ (by grind) (h.advance (by decide)) hlabel rfl
        obtain ⟨g₂, h₂⟩ := h₁.expect (by decide)
        obtain ⟨g₃, h₃⟩ := ih.stmts steps (by omega) _ v m (by grind) h₂ hbody hm
        obtain ⟨g₄, h₄⟩ := ih.cases steps (by omega) _ m r (by grind) h₃ hmore hr
        simp only [casesGaps, List.append_eq_nil_iff]
        exact ⟨⟨g₁, g₂, g₃, g₄⟩, h₄⟩
    · intro steps hsteps w u r hlen h hspans hr
      obtain ⟨steps, rfl⟩ : ∃ m, steps = m + 1 := ⟨steps - 1, by omega⟩
      unfold readBlockItems
      rcases spans_repetition.mp hspans with rfl | ⟨m, hfirst, hmore⟩
      · rw [if_pos (atListEnd_of_next h hr)]
        exact ⟨rfl, h⟩
      · obtain ⟨hnext, hlt⟩ := opens_blockItem u m hfirst
        have hdeclarations : 2 * (n + 1) ≤ steps := by omega
        rw [if_neg (not_atListEnd h hnext)]
        rcases spans_blockItem.mp hfirst with ⟨rule, hmem, hrule⟩ | hstatement
        · obtain ⟨d, w', heq, g₁, h₁⟩ := readDeclaration_complete hdeclarations hlen h hmem hrule
          obtain ⟨g₂, h₂⟩ := ih.block steps (by omega) _ m r (by omega) h₁ hmore hr
          simp only [heq, blockGaps, BlockItem.gaps, List.append_eq_nil_iff]
          exact ⟨⟨g₁, g₂⟩, h₂⟩
        · have hstart := h.next (opens_statement u m hstatement).1
          obtain ⟨g₁, h₁⟩ := hstmt steps (by omega) u m hlen hstatement
            (next_items opens_blockItem hmore hr) w h
          obtain ⟨g₂, h₂⟩ := ih.block steps (by omega) _ m r (by omega) h₁ hmore hr
          simp only [readDeclaration_none (.inl hstart), if_pos hstart, blockGaps, BlockItem.gaps,
            List.append_eq_nil_iff]
          exact ⟨⟨g₁, g₂⟩, h₂⟩

end Window
end SlotLang
