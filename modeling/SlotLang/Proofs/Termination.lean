import SlotLang.Proofs.Progress
import SlotLang.Proofs.StatementGrammar
import SlotLang.Proofs.Trace

/-!
# Compiling ends at the first end token

Statements, procedures and programs are read from what the window shows up to its first end token,
and a number of steps three times as large as the number of tokens shown is enough for all of them.
So the bound on the steps never cuts anything off, the tokens behind the first end token have no
influence, and no token is taken twice.
-/

namespace SlotLang

open Outline (Leads)

/-- A procedure is told by a token of its own. -/
theorem Procedure.outline_takes (p : Procedure) : p.outline.tokens ≠ [] := by
  cases p
  simp [Procedure.outline]

theorem External.outline_takes (e : External) : e.outline.tokens ≠ [] := by
  cases e <;> simp [External.outline]

namespace Window

variable {g : Grammar} {n s t : Nat} {w w₁ w₂ : Window}

/-! ## Statements -/

theorem stmtForm_ne_eof {k : TokenKind} {form : StmtForm} (h : g.stmtForm? k = some form) :
    k ≠ .eof := by
  rw [kind_of_stmtForm h]
  cases form <;> decide

theorem readDesignator_takes {s : Nat} (h : w.kind = .identifier) :
    (w.readDesignator s).1.outline.tokens ≠ [] := by
  simp [readDesignator, expect, h, Designator.outline, Terminal.outline]

theorem steady_readCondition (h₁ : 2 * n ≤ s) (h₂ : 2 * n ≤ t) :
    Steady Condition.outline n (readCondition g s) (readCondition g t) := by
  intro w₁ w₂ h
  have a := steady_expect (k := .openParen) (by decide) n _ _ h
  have b := steady_readExpr (g := g) .lowest h₁ h₂ _ _ a.alike
  have c := steady_expect (k := .closeParen) (by decide) n _ _ b.alike
  simp only [readCondition]
  exact ⟨by rw [a.tree, b.tree, c.tree], c.alike, a.passes.append (b.passes.append c.passes)⟩

theorem steady_readAssignment (h₁ : 2 * n ≤ s) (h₂ : 2 * n ≤ t) :
    Steady Assignment.outline n (readAssignment g s) (readAssignment g t) := by
  intro w₁ w₂ h
  have a := steady_readDesignator (s := s) (t := t) (by omega) (by omega) _ _ h
  rcases a.alike.expect_cases (k := .assignment) with ⟨hkind, hx, hy⟩ | ⟨hx, hy⟩
  · have hne := kind_ne_eof hkind (by decide)
    have b := steady_readExpr (g := g) .lowest h₁ h₂ _ _ (a.alike.past hne)
    simp only [readAssignment, hx, hy]
    exact ⟨by rw [a.tree, b.tree], b.alike,
      a.passes.append ((a.alike.left.passes hne).append b.passes)⟩
  · simp only [readAssignment, hx, hy]
    exact ⟨by rw [a.tree], a.alike, a.passes.append (a.alike.left.refuses _)⟩

theorem readAssign_agree {target : Designator} (h₁ : 2 * n ≤ s) (h₂ : 2 * n ≤ t)
    (h : Alike (n + 1) w₁ w₂) (hne : w₁.kind ≠ .eof)
    (htarget : Leads w.shown target.outline w₁.shown) :
    Agreement Stmt.outline n w (w₁.readAssign g s target) (w₂.readAssign g t target) := by
  have htoken := h.left.passes hne
  have a := steady_readExpr (g := g) .lowest h₁ h₂ _ _ (h.advance hne)
  by_cases hkind : (w₁.advance.readExpr g s .lowest).2.kind = .question
  · have hmark := kind_ne_eof hkind (by decide)
    have b := steady_readExpr (g := g) .lowest h₁ h₂ _ _ (a.alike.past hmark)
    have c := steady_expect (k := .colon) (by decide) n _ _ b.alike
    have d := steady_readExpr (g := g) .lowest h₁ h₂ _ _ c.alike
    have e := steady_expect (k := .semicolon) (by decide) n _ _ d.alike
    simp only [readAssign, ← a.alike.kind, hkind, if_true]
    refine ⟨by rw [h.ahead, a.alike.ahead, a.tree, b.tree, c.tree, d.tree, e.tree], e.alike, ?_⟩
    exact htarget.append (htoken.append (a.passes.append ((a.alike.left.passes hmark).append
      (b.passes.append (c.passes.append (d.passes.append e.passes))))))
  · have b := steady_expect (k := .semicolon) (by decide) n _ _ a.alike
    simp only [readAssign, ← a.alike.kind, hkind, if_false]
    exact ⟨by rw [h.ahead, a.tree, b.tree], b.alike,
      htarget.append (htoken.append (a.passes.append b.passes))⟩

theorem readCall_agree {callee : Designator} (h₁ : 2 * n ≤ s) (h₂ : 2 * n ≤ t)
    (h : Alike (n + 1) w₁ w₂) (hne : w₁.kind ≠ .eof)
    (hcallee : Leads w.shown callee.outline w₁.shown) :
    Agreement Stmt.outline n w (w₁.readCall g s callee) (w₂.readCall g t callee) := by
  have a := steady_separatedUnlessClosed (steady_readExpr (g := g) .lowest h₁ h₂) (s := s)
    (t := t) (by omega) (by omega) _ _ (h.advance hne)
  have b := steady_expect (k := .closeParen) (by decide) n _ _ a.alike
  have c := steady_expect (k := .semicolon) (by decide) n _ _ b.alike
  simp only [readCall]
  exact ⟨by rw [h.ahead, a.tree, b.tree, c.tree], c.alike,
    hcallee.append ((h.left.passes hne).append (a.passes.append (b.passes.append c.passes)))⟩

theorem readDesignatorStmt_agree (h₁ : 2 * n + 1 ≤ s) (h₂ : 2 * n + 1 ≤ t)
    (h : Alike (n + 1) w₁ w₂) :
    Agreement Stmt.outline (n + 1) w₁ (w₁.readDesignatorStmt g s)
      (w₂.readDesignatorStmt g t) := by
  have a := steady_readDesignator (s := s) (t := t) (by omega) (by omega) _ _ h
  simp only [readDesignatorStmt, ← a.tree, ← a.alike.kind]
  cases hname : (w₁.readDesignator s).1.name? with
  | none => exact ⟨rfl, a.alike, a.passes⟩
  | some name =>
    dsimp only
    split
    next hkind =>
      exact (readAssign_agree (by omega) (by omega) a.alike (kind_ne_eof hkind (by decide)) a.passes).mono
        (Nat.le_succ n)
    next hkind =>
      exact (readCall_agree (by omega) (by omega) a.alike (kind_ne_eof hkind (by decide)) a.passes).mono
        (Nat.le_succ n)
    next => exact ⟨by rw [a.alike.ahead], a.alike, a.passes.append (a.alike.left.refuses _)⟩

theorem readDesignatorStmt_takes {s : Nat} (h : w.kind = .identifier) :
    (w.readDesignatorStmt g s).1.outline.tokens ≠ [] := by
  have htaken := readDesignator_takes (s := s) h
  simp only [readDesignatorStmt]
  cases (w.readDesignator s).1.name? with
  | none => simpa [Stmt.outline] using htaken
  | some name =>
    dsimp only
    split
    next =>
      simp only [readAssign]
      split <;> simp [Stmt.outline, htaken]
    next => simp [readCall, Stmt.outline, htaken]
    next => simp [Stmt.outline, htaken]

theorem readRead_agree (h₁ : n ≤ s) (h₂ : n ≤ t) (h : Alike n w₁ w₂) (hne : w₁.kind ≠ .eof) :
    Agreement Stmt.outline n w₁ (w₁.readRead s) (w₂.readRead t) := by
  have a := steady_readDesignator h₁ h₂ _ _ (h.past hne)
  have b := steady_expect (k := .semicolon) (by decide) n _ _ a.alike
  simp only [readRead]
  exact ⟨by rw [h.ahead, a.tree, b.tree], b.alike,
    (h.left.passes hne).append (a.passes.append b.passes)⟩

theorem readWrite_agree (h₁ : 2 * n ≤ s) (h₂ : 2 * n ≤ t) (h : Alike (n + 1) w₁ w₂)
    (hne : w₁.kind ≠ .eof) :
    Agreement Stmt.outline n w₁ (w₁.readWrite g s) (w₂.readWrite g t) := by
  have a := steady_separated (steady_readExpr (g := g) .lowest h₁ h₂) (s := s) (t := t)
    (by omega) (by omega) _ _ (h.advance hne)
  have b := steady_expect (k := .semicolon) (by decide) n _ _ a.alike
  simp only [readWrite]
  exact ⟨by rw [h.ahead, a.tree, b.tree], b.alike,
    (h.left.passes hne).append (a.passes.append b.passes)⟩

/-- A statement takes one step before it is opened and one more to be opened, and a list of
statements takes one more than that to start. -/
structure SteadyStmts (g : Grammar) (n : Nat) : Prop where
  stmt : ∀ {s t : Nat}, 3 * n ≤ s → 3 * n ≤ t →
    Steady Stmt.outline n (readStmt g s) (readStmt g t)
  stmts : ∀ {s t : Nat}, 3 * n + 1 ≤ s → 3 * n + 1 ≤ t →
    Steady stmtsOutline n (readStmts g s) (readStmts g t)
  cases : ∀ {s t : Nat}, 3 * n ≤ s → 3 * n ≤ t →
    Steady casesOutline n (readCases g s) (readCases g t)
  block : ∀ {s t : Nat}, 3 * n + 1 ≤ s → 3 * n + 1 ≤ t →
    Steady blockOutline n (readBlockItems g s) (readBlockItems g t)

namespace SteadyStmts

theorem readSwitch (ih : SteadyStmts g n) (h₁ : 3 * n + 1 ≤ s) (h₂ : 3 * n + 1 ≤ t)
    (h : Alike (n + 1) w₁ w₂) (hne : w₁.kind ≠ .eof) :
    Agreement Stmt.outline n w₁ (readStmtForm g (s + 1) .switch w₁)
      (readStmtForm g (t + 1) .switch w₂) := by
  have a := steady_expect (k := .openParen) (by decide) n _ _ (h.advance hne)
  have b := steady_readExpr (g := g) (s := s) (t := t) .lowest (by omega) (by omega) _ _ a.alike
  have c := steady_expect (k := .closeParen) (by decide) n _ _ b.alike
  have d := steady_expect (k := .openCurly) (by decide) n _ _ c.alike
  have e := ih.cases (s := s) (t := t) (by omega) (by omega) _ _ d.alike
  simp only [readStmtForm, ← e.alike.kind]
  split
  next hkind =>
    have hdefault := kind_ne_eof hkind (by decide)
    have f := steady_expect (k := .colon) (by decide) n _ _ (e.alike.past hdefault)
    have b' := ih.stmts h₁ h₂ _ _ f.alike
    have c' := steady_expect (k := .closeCurly) (by decide) n _ _ b'.alike
    refine ⟨by rw [h.ahead, a.tree, b.tree, c.tree, d.tree, e.tree, e.alike.ahead, f.tree, b'.tree,
      c'.tree], c'.alike, ?_⟩
    exact (h.left.passes hne).append (a.passes.append (b.passes.append (c.passes.append
      (d.passes.append (e.passes.append (((e.alike.left.passes hdefault).append f.passes).append
        (b'.passes.append c'.passes)))))))
  next =>
    have f := steady_expect (k := .closeCurly) (by decide) n _ _ e.alike
    refine ⟨by rw [h.ahead, a.tree, b.tree, c.tree, d.tree, e.tree, f.tree], f.alike, ?_⟩
    exact (h.left.passes hne).append (a.passes.append (b.passes.append (c.passes.append
      (d.passes.append (e.passes.append ((Leads.empty _).append
        ((Leads.empty _).append f.passes)))))))

theorem readFor (ih : SteadyStmts g n) (h₁ : 3 * n ≤ s) (h₂ : 3 * n ≤ t)
    (h : Alike (n + 1) w₁ w₂) (hne : w₁.kind ≠ .eof) :
    Agreement Stmt.outline n w₁ (readStmtForm g (s + 1) .forLoop w₁)
      (readStmtForm g (t + 1) .forLoop w₂) := by
  have hassign := steady_readAssignment (g := g) (n := n) (s := s) (t := t) (by omega) (by omega)
  have a := steady_expect (k := .openParen) (by decide) n _ _ (h.advance hne)
  have b := hassign _ _ a.alike
  have c := steady_expect (k := .semicolon) (by decide) n _ _ b.alike
  have d := steady_readExpr (g := g) (s := s) (t := t) .lowest (by omega) (by omega) _ _ c.alike
  have e := steady_expect (k := .semicolon) (by decide) n _ _ d.alike
  have f := hassign _ _ e.alike
  have b' := steady_expect (k := .closeParen) (by decide) n _ _ f.alike
  have c' := ih.stmt h₁ h₂ _ _ b'.alike
  simp only [readStmtForm]
  refine ⟨by rw [h.ahead, a.tree, b.tree, c.tree, d.tree, e.tree, f.tree, b'.tree, c'.tree],
    c'.alike, ?_⟩
  exact (h.left.passes hne).append (a.passes.append (b.passes.append (c.passes.append
    (d.passes.append (e.passes.append (f.passes.append (b'.passes.append c'.passes)))))))

theorem readBranch (ih : SteadyStmts g n) (h₁ : 3 * n ≤ s) (h₂ : 3 * n ≤ t)
    (h : Alike (n + 1) w₁ w₂) (hne : w₁.kind ≠ .eof) :
    Agreement Stmt.outline n w₁ (readStmtForm g (s + 1) .branch w₁)
      (readStmtForm g (t + 1) .branch w₂) := by
  have a := steady_readCondition (g := g) (s := s) (t := t) (by omega) (by omega) _ _
    (h.advance hne)
  have b := ih.stmt h₁ h₂ _ _ a.alike
  simp only [readStmtForm, ← b.alike.kind]
  split
  next hkind =>
    have helse := kind_ne_eof hkind (by decide)
    have c := ih.stmt h₁ h₂ _ _ (b.alike.past helse)
    refine ⟨by rw [h.ahead, a.tree, b.tree, b.alike.ahead, c.tree], c.alike, ?_⟩
    exact (h.left.passes hne).append (a.passes.append (b.passes.append
      ((b.alike.left.passes helse).append c.passes)))
  next =>
    exact ⟨by rw [h.ahead, a.tree, b.tree], b.alike,
      (h.left.passes hne).append (a.passes.append b.passes)⟩

theorem readStmtForm (ih : SteadyStmts g n) {form : StmtForm} (h₁ : 3 * n + 1 ≤ s)
    (h₂ : 3 * n + 1 ≤ t) (h : Alike (n + 1) w₁ w₂) (hform : g.stmtForm? w₁.kind = some form) :
    Agreement Stmt.outline (n + 1) w₁ (readStmtForm g (s + 1) form w₁)
      (readStmtForm g (t + 1) form w₂) := by
  have hne := stmtForm_ne_eof hform
  have h₁' : 3 * n ≤ s := Nat.le_of_succ_le h₁
  have h₂' : 3 * n ≤ t := Nat.le_of_succ_le h₂
  cases form with
  | designator => exact readDesignatorStmt_agree (by omega) (by omega) h
  | branch => exact (ih.readBranch h₁' h₂' h hne).mono (Nat.le_succ n)
  | whileLoop =>
    have a := steady_readCondition (g := g) (s := s) (t := t) (by omega) (by omega) _ _
      (h.advance hne)
    have b := ih.stmt h₁' h₂' _ _ a.alike
    simp only [Window.readStmtForm]
    exact ⟨by rw [h.ahead, a.tree, b.tree], b.alike.mono (Nat.le_succ n),
      (h.left.passes hne).append (a.passes.append b.passes)⟩
  | forLoop => exact (ih.readFor h₁' h₂' h hne).mono (Nat.le_succ n)
  | switch => exact (ih.readSwitch h₁ h₂ h hne).mono (Nat.le_succ n)
  | read => exact readRead_agree (by omega) (by omega) h hne
  | write => exact (readWrite_agree (by omega) (by omega) h hne).mono (Nat.le_succ n)
  | block =>
    have a := ih.block h₁ h₂ _ _ (h.advance hne)
    have b := steady_expect (k := .closeCurly) (by decide) n _ _ a.alike
    simp only [Window.readStmtForm]
    exact ⟨by rw [h.ahead, a.tree, b.tree], b.alike.mono (Nat.le_succ n),
      (h.left.passes hne).append (a.passes.append b.passes)⟩

end SteadyStmts

theorem readStmt_takes {s : Nat} (hs : 2 ≤ s) (h : g.startsStmt w.kind = true) :
    (readStmt g s w).1.outline.tokens ≠ [] := by
  obtain ⟨s, rfl⟩ := Nat.exists_eq_add_of_le' hs
  obtain ⟨form, hform⟩ := Option.isSome_iff_exists.mp h
  simp only [readStmt, hform]
  cases form with
  | designator => exact readDesignatorStmt_takes (kind_of_stmtForm hform)
  | branch | switch =>
    simp only [readStmtForm]
    split <;> simp [Stmt.outline]
  | whileLoop | forLoop | block => simp [readStmtForm, Stmt.outline]
  | read => simp [readStmtForm, readRead, Stmt.outline]
  | write => simp [readStmtForm, readWrite, Stmt.outline]

namespace SteadyStmts

theorem readStmt (ih : SteadyStmts g n) (h₁ : 3 * (n + 1) ≤ s) (h₂ : 3 * (n + 1) ≤ t) :
    Steady Stmt.outline (n + 1) (readStmt g s) (readStmt g t) := by
  obtain ⟨s, rfl⟩ := Nat.exists_eq_add_of_le' (by omega : 2 ≤ s)
  obtain ⟨t, rfl⟩ := Nat.exists_eq_add_of_le' (by omega : 2 ≤ t)
  intro w₁ w₂ h
  simp only [Window.readStmt, ← h.kind]
  cases hform : g.stmtForm? w₁.kind with
  | none => exact ⟨by rw [h.ahead], h, h.left.refuses _⟩
  | some form => exact ih.readStmtForm (by omega) (by omega) h hform

theorem readStmts (ih : SteadyStmts g n) (h₁ : 3 * (n + 1) + 1 ≤ s) (h₂ : 3 * (n + 1) + 1 ≤ t) :
    Steady stmtsOutline (n + 1) (readStmts g s) (readStmts g t) := by
  obtain ⟨s, rfl⟩ := Nat.exists_eq_add_one_of_ne_zero (by omega : s ≠ 0)
  obtain ⟨t, rfl⟩ := Nat.exists_eq_add_one_of_ne_zero (by omega : t ≠ 0)
  intro w₁ w₂ h
  simp only [Window.readStmts, ← h.kind]
  by_cases hstarts : g.startsStmt w₁.kind = true
  · have a := ih.readStmt (s := s) (t := t) (by omega) (by omega) _ _ h
    have htaken := readStmt_takes (g := g) (s := s) (by omega) hstarts
    have b := ih.stmts (s := s) (t := t) (by omega) (by omega) _ _
      (a.shorter htaken h.length_le)
    simp only [hstarts, if_true]
    exact a.round htaken b id rfl
  · simp only [hstarts, if_false, Bool.false_eq_true]
    exact ⟨rfl, h, .empty _⟩

theorem readCases (ih : SteadyStmts g n) (h₁ : 3 * (n + 1) ≤ s) (h₂ : 3 * (n + 1) ≤ t) :
    Steady casesOutline (n + 1) (readCases g s) (readCases g t) := by
  obtain ⟨s, rfl⟩ := Nat.exists_eq_add_one_of_ne_zero (by omega : s ≠ 0)
  obtain ⟨t, rfl⟩ := Nat.exists_eq_add_one_of_ne_zero (by omega : t ≠ 0)
  intro w₁ w₂ h
  simp only [Window.readCases, ← h.kind]
  by_cases hkind : w₁.kind = .kwCase
  · have hne := kind_ne_eof hkind (by decide)
    have a := steady_readExpr (g := g) (s := s) (t := t) .lowest (by omega) (by omega) _ _
      (h.advance hne)
    have b := steady_expect (k := .colon) (by decide) n _ _ a.alike
    have c := ih.stmts (s := s) (t := t) (by omega) (by omega) _ _ b.alike
    have d := ih.cases (s := s) (t := t) (by omega) (by omega) _ _ c.alike
    simp only [hkind, if_true]
    refine ⟨by rw [h.ahead, a.tree, b.tree, c.tree, d.tree], d.alike.mono (Nat.le_succ n), ?_⟩
    exact ((h.left.passes hne).append (a.passes.append (b.passes.append c.passes))).round (by simp)
      d.passes
  · simp only [hkind, if_false]
    exact ⟨rfl, h, .empty _⟩

theorem readBlockItems (ih : SteadyStmts g n) (h₁ : 3 * (n + 1) + 1 ≤ s)
    (h₂ : 3 * (n + 1) + 1 ≤ t) :
    Steady blockOutline (n + 1) (readBlockItems g s) (readBlockItems g t) := by
  obtain ⟨s, rfl⟩ := Nat.exists_eq_add_one_of_ne_zero (by omega : s ≠ 0)
  obtain ⟨t, rfl⟩ := Nat.exists_eq_add_one_of_ne_zero (by omega : t ≠ 0)
  have hmore := ih.block (s := s) (t := t) (by omega) (by omega)
  intro w₁ w₂ h
  simp only [Window.readBlockItems, ← h.atListEnd, ← h.kind]
  by_cases hend : w₁.atListEnd = true
  · simp only [hend, if_true]
    exact ⟨rfl, h, .empty _⟩
  simp only [hend, if_false, Bool.false_eq_true]
  rcases readDeclaration_agree (g := g) (s := s) (t := t) (by omega) (by omega) h with
    ⟨hx, hy⟩ | ⟨x, y, hx, hy, a⟩
  · simp only [hx, hy]
    by_cases hstarts : g.startsStmt w₁.kind = true
    · have a := ih.readStmt (s := s) (t := t) (by omega) (by omega) _ _ h
      have htaken := readStmt_takes (g := g) (s := s) (by omega) hstarts
      have b := hmore _ _ (a.shorter htaken h.length_le)
      simp only [hstarts, if_true]
      exact a.round htaken b .statement rfl
    · have a := h.skip (ne_eof_of_not_atListEnd hend) "Stat"
      have b := hmore _ _ a.alike
      simp only [hstarts, if_false, Bool.false_eq_true]
      exact a.round (skippedOutline_takes _ _) b .skipped rfl
  · have htaken := readDeclaration_takes hx
    have b := hmore _ _ (a.shorter htaken h.length_le)
    simp only [hx, hy]
    exact a.round htaken b .declaration rfl

end SteadyStmts

theorem steadyStmts (g : Grammar) (n : Nat) : SteadyStmts g n := by
  induction n with
  | zero =>
    constructor <;> · intros; exact steady_zero
  | succ n ih => exact ⟨ih.readStmt, ih.readStmts, ih.readCases, ih.readBlockItems⟩

/-! ## Procedures -/

theorem steady_readParam (n : Nat) : Steady Param.outline n readParam readParam := by
  intro w₁ w₂ h
  have a := steady_readScalarSpec n w₁ w₂ h
  have b := steady_expect (k := .identifier) (by decide) n _ _ a.alike
  simp only [readParam]
  exact ⟨by rw [a.tree, b.tree], b.alike, a.passes.append b.passes⟩

theorem readProcedure_agree
    (hbody : ∀ {s t : Nat}, 3 * n + 1 ≤ s → 3 * n + 1 ≤ t →
      Steady bodyOutline n (readBodyItems g s) (readBodyItems g t))
    (h₁ : 3 * n + 2 ≤ s) (h₂ : 3 * n + 2 ≤ t) (h : Alike (n + 1) w₁ w₂) (hne : w₁.kind ≠ .eof) :
    Agreement Procedure.outline n w₁ (readProcedure g s w₁) (readProcedure g t w₂) := by
  obtain ⟨s, rfl⟩ := Nat.exists_eq_add_one_of_ne_zero (by omega : s ≠ 0)
  obtain ⟨t, rfl⟩ := Nat.exists_eq_add_one_of_ne_zero (by omega : t ≠ 0)
  have a := steady_expect (k := .identifier) (by decide) n _ _ (h.advance hne)
  have b := steady_expect (k := .openParen) (by decide) n _ _ a.alike
  have c := steady_separatedUnlessClosed (steady_readParam n) (s := s) (t := t) (by omega)
    (by omega) _ _ b.alike
  have d := steady_expect (k := .closeParen) (by decide) n _ _ c.alike
  have e := steady_expect (k := .openCurly) (by decide) n _ _ d.alike
  have f := hbody (s := s) (t := t) (by omega) (by omega) _ _ e.alike
  have a' := steady_expect (k := .closeCurly) (by decide) n _ _ f.alike
  simp only [readProcedure]
  refine ⟨by rw [h.ahead, a.tree, b.tree, c.tree, d.tree, e.tree, f.tree, a'.tree], a'.alike, ?_⟩
  exact (h.left.passes hne).append (a.passes.append (b.passes.append (c.passes.append
    (d.passes.append (e.passes.append (f.passes.append a'.passes))))))

theorem steady_readBodyItems (h₁ : 3 * n + 1 ≤ s) (h₂ : 3 * n + 1 ≤ t) :
    Steady bodyOutline n (readBodyItems g s) (readBodyItems g t) := by
  induction n generalizing s t with
  | zero => exact steady_zero
  | succ n ih =>
    obtain ⟨s, rfl⟩ := Nat.exists_eq_add_one_of_ne_zero (by omega : s ≠ 0)
    obtain ⟨t, rfl⟩ := Nat.exists_eq_add_one_of_ne_zero (by omega : t ≠ 0)
    have hmore := ih (s := s) (t := t) (by omega) (by omega)
    intro w₁ w₂ h
    simp only [readBodyItems, ← h.atListEnd, ← h.kind]
    by_cases hend : w₁.atListEnd = true
    · simp only [hend, if_true]
      exact ⟨rfl, h, .empty _⟩
    have hne := ne_eof_of_not_atListEnd hend
    simp only [hend, if_false, Bool.false_eq_true]
    rcases readDeclaration_agree (g := g) (s := s) (t := t) (by omega) (by omega) h with
      ⟨hx, hy⟩ | ⟨x, y, hx, hy, a⟩
    · simp only [hx, hy]
      by_cases hkind : w₁.kind = .kwVoid
      · have a := readProcedure_agree ih (s := s) (t := t) (by omega) (by omega) h hne
        have b := hmore _ _ a.alike
        simp only [hkind, if_true]
        exact a.round (Procedure.outline_takes _) b .nested rfl
      by_cases hstarts : g.startsStmt w₁.kind = true
      · have a := (steadyStmts g (n + 1)).stmt (s := s) (t := t) (by omega) (by omega) _ _ h
        have htaken := readStmt_takes (g := g) (s := s) (by omega) hstarts
        have b := hmore _ _ (a.shorter htaken h.length_le)
        simp only [hkind, hstarts, if_true, if_false]
        exact a.round htaken b .statement rfl
      · have a := h.skip hne "Stat"
        have b := hmore _ _ a.alike
        simp only [hkind, hstarts, if_false, Bool.false_eq_true]
        exact a.round (skippedOutline_takes _ _) b .skipped rfl
    · have htaken := readDeclaration_takes hx
      have b := hmore _ _ (a.shorter htaken h.length_le)
      simp only [hx, hy]
      exact a.round htaken b .declaration rfl

/-! ## Programs -/

theorem steady_readExternalParams (h₁ : n ≤ s) (h₂ : n ≤ t) :
    Steady externalParamsOutline n (readExternalParams? s) (readExternalParams? t) := by
  intro w₁ w₂ h
  by_cases hkind : w₁.kind = .openParen
  · have hne := kind_ne_eof hkind (by decide)
    have a := steady_separatedUnlessClosed (steady_readScalarSpec n) h₁ h₂ _ _ (h.past hne)
    have b := steady_expect (k := .closeParen) (by decide) n _ _ a.alike
    simp only [readExternalParams?, ← h.kind, hkind, if_true]
    exact ⟨by rw [h.ahead, a.tree, b.tree], b.alike,
      (h.left.passes hne).append (a.passes.append b.passes)⟩
  · simp only [readExternalParams?, ← h.kind, hkind, if_false]
    exact ⟨rfl, h, .empty _⟩

theorem readExternal_agree (h₁ : n ≤ s) (h₂ : n ≤ t) (h : Alike (n + 1) w₁ w₂)
    (hne : w₁.kind ≠ .eof) :
    Agreement External.outline n w₁ (w₁.readExternal s) (w₂.readExternal t) := by
  have htoken := h.left.passes hne
  have h' := h.advance hne
  simp only [readExternal, ← h'.kind]
  split
  case h_1 | h_2 =>
    have a := steady_readScalarSpec n _ _ h'
    have b := steady_separated (steady_expect (k := .identifier) (by decide) n) h₁ h₂ _ _ a.alike
    have c := steady_expect (k := .semicolon) (by decide) n _ _ b.alike
    exact ⟨by rw [h.ahead, a.tree, b.tree, c.tree], c.alike,
      htoken.append (a.passes.append (b.passes.append c.passes))⟩
  case h_3 hkind =>
    have hconst := kind_ne_eof hkind (by decide)
    have a := steady_readScalarSpec n _ _ (h'.past hconst)
    have b := steady_expect (k := .identifier) (by decide) n _ _ a.alike
    have c := steady_expect (k := .semicolon) (by decide) n _ _ b.alike
    exact ⟨by rw [h.ahead, h'.ahead, a.tree, b.tree, c.tree], c.alike,
      htoken.append ((h'.left.passes hconst).append (a.passes.append (b.passes.append c.passes)))⟩
  case h_4 hkind =>
    have hmark := kind_ne_eof hkind (by decide)
    have h'' := h'.past hmark
    rcases h''.expect_cases (k := .identifier) with ⟨hname, hx, hy⟩ | ⟨hx, hy⟩
    · have hname := kind_ne_eof hname (by decide)
      have a := steady_readExternalParams h₁ h₂ _ _ (h''.past hname)
      have b := steady_expect (k := .semicolon) (by decide) n _ _ a.alike
      simp only [hx, hy]
      exact ⟨by rw [h.ahead, h'.ahead, a.tree, b.tree], b.alike,
        htoken.append ((h'.left.passes hmark).append ((h''.left.passes hname).append
          (a.passes.append b.passes)))⟩
    · have a := steady_expect (k := .semicolon) (by decide) n _ _ h''
      simp only [hx, hy]
      exact ⟨by rw [h.ahead, h'.ahead, a.tree], a.alike,
        htoken.append ((h'.left.passes hmark).append ((h''.left.refuses _).append
          ((Leads.empty _).append a.passes)))⟩
  case h_5 => exact ⟨by rw [h.ahead, h'.ahead], h', htoken.append (h'.left.refuses _)⟩

theorem steady_readProgramItems (h₁ : 3 * n + 1 ≤ s) (h₂ : 3 * n + 1 ≤ t) :
    Steady (Outline.loop ProgramItem.outline) n (readProgramItems g s) (readProgramItems g t) := by
  induction n generalizing s t with
  | zero => exact steady_zero
  | succ n ih =>
    obtain ⟨s, rfl⟩ := Nat.exists_eq_add_one_of_ne_zero (by omega : s ≠ 0)
    obtain ⟨t, rfl⟩ := Nat.exists_eq_add_one_of_ne_zero (by omega : t ≠ 0)
    have hmore := ih (s := s) (t := t) (by omega) (by omega)
    intro w₁ w₂ h
    simp only [readProgramItems, ← h.atListEnd, ← h.kind]
    by_cases hend : w₁.atListEnd = true
    · simp only [hend, if_true]
      exact ⟨rfl, h, .empty _⟩
    have hne := ne_eof_of_not_atListEnd hend
    simp only [hend, if_false, Bool.false_eq_true]
    rcases readDeclaration_agree (g := g) (s := s) (t := t) (by omega) (by omega) h with
      ⟨hx, hy⟩ | ⟨x, y, hx, hy, a⟩
    · simp only [hx, hy]
      by_cases hvoid : w₁.kind = .kwVoid
      · have a := readProcedure_agree (g := g) steady_readBodyItems (s := s) (t := t) (by omega)
          (by omega) h hne
        have b := hmore _ _ a.alike
        simp only [hvoid, if_true]
        exact a.round (Procedure.outline_takes _) b .procedure rfl
      by_cases hexternal : w₁.kind = .kwExternal
      · have a := readExternal_agree (s := s) (t := t) (by omega) (by omega) h hne
        have b := hmore _ _ a.alike
        simp only [hvoid, if_false]
        simp only [hexternal, if_true]
        exact a.round (External.outline_takes _) b .external rfl
      · have a := h.skip hne "Decl"
        have b := hmore _ _ a.alike
        simp only [hvoid, hexternal, if_false]
        exact a.round (skippedOutline_takes _ _) b .skipped rfl
    · have htaken := readDeclaration_takes hx
      have b := hmore _ _ (a.shorter htaken h.length_le)
      simp only [hx, hy]
      exact a.round htaken b .declaration rfl

/-- The end token is the last one shown.  Nothing is left behind it. -/
theorem expect_eof_agree (h : Alike n w₁ w₂) :
    (w₁.expect .eof).1 = (w₂.expect .eof).1 ∧ ∃ v, Leads w₁.shown (w₁.expect .eof).1.outline v := by
  rcases h.expect_cases (k := .eof) with ⟨hkind, hx, hy⟩ | ⟨hx, hy⟩
  · rw [hx, hy, h.left.shown_of_eof hkind]
    exact ⟨rfl, [], .token _ _⟩
  · rw [hx, hy]
    exact ⟨rfl, _, h.left.refuses _⟩

theorem readProgram_agree (h₁ : 3 * n + 1 ≤ s) (h₂ : 3 * n + 1 ≤ t) (h : Alike n w₁ w₂) :
    (w₁.readProgram g s).1 = (w₂.readProgram g t).1 ∧
      ∃ v, Leads w₁.shown (w₁.readProgram g s).1.outline v := by
  have a := steady_expect (k := .kwProgram) (by decide) n _ _ h
  have b := steady_expect (k := .identifier) (by decide) n _ _ a.alike
  have c := steady_expect (k := .openCurly) (by decide) n _ _ b.alike
  have d := steady_readProgramItems (g := g) h₁ h₂ _ _ c.alike
  have e := steady_expect (k := .closeCurly) (by decide) n _ _ d.alike
  obtain ⟨hending, v, hpasses⟩ := expect_eof_agree e.alike
  refine ⟨?_, v, ?_⟩
  · simp only [readProgram]
    rw [a.tree, b.tree, c.tree, d.tree, e.tree, hending]
  · exact a.passes.append (b.passes.append (c.passes.append (d.passes.append
      (e.passes.append hpasses))))

/-- The tree of the program that a window shows. -/
def tree (w : Window) : Program := (w.readProgram .full w.budget).1

theorem length_shown_le (w : Window) : w.shown.length ≤ w.size + 1 := by
  have hle := (List.takeWhile_sublist (fun t : Token => decide (t.kind ≠ .eof))
    (l := w.rest)).length_le
  simpa [shown, size] using hle

theorem enough_budget (w : Window) : 3 * w.shown.length + 1 ≤ w.budget := by
  have hle := length_shown_le w
  simp only [budget]
  omega

end Window

/-! ## The first end token -/

/-- The tokens up to the first end token, with this one. -/
def throughEnd (tokens : List Token) : List Token :=
  tokens.takeWhile (fun t => t.kind ≠ .eof) ++ (tokens.find? fun t => t.kind = .eof).toList

theorem find_throughEnd (tokens : List Token) :
    (throughEnd tokens).find? (fun t => t.kind = .eof) =
      tokens.find? fun t => t.kind = .eof := by
  induction tokens with
  | nil => rfl
  | cons t tokens ih =>
    by_cases ht : t.kind = .eof
    · simp [throughEnd, ht]
    · simpa [throughEnd, ht] using ih

theorem takeWhile_throughEnd (tokens : List Token) :
    (throughEnd tokens).takeWhile (fun t => t.kind ≠ .eof) =
      tokens.takeWhile fun t => t.kind ≠ .eof := by
  induction tokens with
  | nil => rfl
  | cons t tokens ih =>
    by_cases ht : t.kind = .eof
    · simp [throughEnd, ht]
    · simpa [throughEnd, ht] using ih

theorem alike_throughEnd (tokens : List Token) (file : String) :
    Window.Alike (Window.ofTokens tokens file).shown.length (Window.ofTokens tokens file)
      (Window.ofTokens (throughEnd tokens) file) where
  left := Window.ends_ofTokens _ _
  right := Window.ends_ofTokens _ _
  shown := by
    simp only [Window.shown, Window.ofTokens, takeWhile_throughEnd, find_throughEnd]
  length_le := Nat.le_refl _

theorem tree_throughEnd (tokens : List Token) (file : String) :
    (Window.ofTokens tokens file).tree = (Window.ofTokens (throughEnd tokens) file).tree := by
  have h := alike_throughEnd tokens file
  have hbudget := Window.enough_budget (Window.ofTokens (throughEnd tokens) file)
  rw [← h.shown] at hbudget
  exact (Window.readProgram_agree (Window.enough_budget _) hbudget h).1

theorem outcome_throughEnd (tokens : List Token) (file : String) :
    (Window.ofTokens tokens file).outcome = (Window.ofTokens (throughEnd tokens) file).outcome := by
  have htree := tree_throughEnd tokens file
  have hahead := (alike_throughEnd tokens file).ahead
  simp only [Window.tree] at htree
  simp only [Window.outcome, htree, hahead]

/-- Compiling ends, and it ends at the first end token.  The tree does not change if more steps are
granted than three for each token shown; each token that is consumed is one of those shown, in their
order; each round of a loop consumes at least one of them; and tokens behind the first end token
change nothing. -/
theorem compiling_ends_at_first_end (tokens : List Token) (file : String) :
    (∀ extra, ((Window.ofTokens tokens file).readProgram .full
      (3 * (Window.ofTokens tokens file).shown.length + 1 + extra)).1 =
        (Window.ofTokens tokens file).tree) ∧
    (Window.ofTokens tokens file).tree.outline.tokens <+: (Window.ofTokens tokens file).shown ∧
    (Window.ofTokens tokens file).outcome.events.count .consumed =
      (Window.ofTokens tokens file).tree.outline.tokens.length ∧
    (Window.ofTokens tokens file).tree.outline.Progresses ∧
    ∀ minDistance, compileTokens tokens file minDistance =
      compileTokens (throughEnd tokens) file minDistance := by
  have hends := Window.ends_ofTokens tokens file
  have hself : Window.Alike (Window.ofTokens tokens file).shown.length
      (Window.ofTokens tokens file) (Window.ofTokens tokens file) :=
    ⟨hends, hends, rfl, Nat.le_refl _⟩
  have hbudget := Window.enough_budget (Window.ofTokens tokens file)
  obtain ⟨-, v, hpasses⟩ := Window.readProgram_agree (g := .full) hbudget hbudget hself
  refine ⟨?_, ?_, ?_, hpasses.progresses, ?_⟩
  · intro extra
    exact (Window.readProgram_agree (Nat.le_add_right _ _) hbudget hself).1
  · exact ⟨v, hpasses.tokens⟩
  · exact (Program.lower_recounts _ _).count_consumed
  · intro minDistance
    simp only [compileTokens, compileWindow_eq]
    rw [outcome_throughEnd]

end SlotLang
