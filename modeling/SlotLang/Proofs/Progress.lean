import SlotLang.Proofs.ExpressionGrammar

/-!
# Reading depends on what is shown

A reader never looks behind the first end token, and it takes every token at most once.  So its tree
depends only on the tokens that its window shows up to there.  The number of steps plays no part, if
it is large enough: each round of a loop takes a token, and so does each construct that is opened.

Both are one statement about two runs of a reader, on windows that show the same tokens, with numbers
of steps that are both large enough.  The two runs hand over the same tree and again show the same
tokens, namely those behind the leaves of the tree.
-/

namespace SlotLang

/-! ## Tokens that an outline passes -/

/-- The leaves stand along the tokens from `u` to `v`: a token that was read is the next one of these,
and a gap is in front of the next one. -/
inductive Along : List Token → List Leaf → List Token → Prop where
  | done (u : List Token) : Along u [] u
  | token {t : Token} {u v : List Token} {leaves : List Leaf} :
      Along u leaves v → Along (t :: u) (.token t :: leaves) v
  | gap {fault : Fault} {next : Token} {u v : List Token} {leaves : List Leaf} :
      Along (next :: u) leaves v → Along (next :: u) (.gap fault next :: leaves) v

namespace Along

variable {u v r : List Token} {leaves more : List Leaf}

theorem append (h : Along u leaves v) (h' : Along v more r) : Along u (leaves ++ more) r := by
  induction h with
  | done u => exact h'
  | token _ ih => exact .token (ih h')
  | gap _ ih => exact .gap (ih h')

theorem tokens (h : Along u leaves v) : leaves.filterMap Leaf.token? ++ v = u := by
  induction h with
  | done u => rfl
  | token _ ih => simpa [Leaf.token?] using ih
  | gap _ ih => simpa [List.filterMap_cons, Leaf.token?] using ih

end Along

/-- The leaves of the outline lead from `u` to `v`, and every round of a loop has taken a token. -/
structure Outline.Leads (u : List Token) (o : Outline) (v : List Token) : Prop where
  along : Along u o.leaves v
  progresses : o.Progresses

namespace Outline.Leads

variable {u v r : List Token} {a b : Outline}

theorem tokens (h : Leads u a v) : a.tokens ++ v = u := h.along.tokens

theorem empty (u : List Token) : Leads u .empty u := ⟨.done u, trivial⟩

theorem gap (fault : Fault) (next : Token) (u : List Token) :
    Leads (next :: u) (.gap fault next) (next :: u) :=
  ⟨.gap (.done _), trivial⟩

theorem token (t : Token) (v : List Token) : Leads (t :: v) (.token t) v :=
  ⟨.token (.done v), trivial⟩

theorem append (ha : Leads u a v) (hb : Leads v b r) : Leads u (a ++ b) r where
  along := ha.along.append hb.along
  progresses := ⟨ha.progresses, hb.progresses⟩

theorem round (ha : Leads u a v) (htaken : a.tokens ≠ []) (hb : Leads v b r) :
    Leads u (.round a b) r where
  along := ha.along.append hb.along
  progresses := ⟨htaken, ha.progresses, hb.progresses⟩

theorem length_le (ha : Leads u a v) : v.length ≤ u.length := by
  rw [← ha.tokens, List.length_append]
  exact Nat.le_add_left _ _

theorem length_lt (ha : Leads u a v) (htaken : a.tokens ≠ []) : v.length < u.length := by
  have hpos := List.length_pos_iff.mpr htaken
  rw [← ha.tokens, List.length_append]
  omega

end Outline.Leads

open Outline (Leads)

namespace Window

/-! ## Windows that show the same -/

/-- The window goes on to show the first end token that it has, or another one if it has none. -/
structure Ends (w : Window) : Prop where
  kind : w.ending.kind = .eof
  first : (w.rest.find? fun t => t.kind = .eof).getD w.ending = w.ending

/-- The tokens up to the first end token, which is supplied if there is none. -/
def shown (w : Window) : List Token :=
  w.rest.takeWhile (fun t => t.kind ≠ .eof) ++ [w.ending]

theorem ends_ofTokens (tokens : List Token) (file : String) : (ofTokens tokens file).Ends where
  kind := kind_ending_ofTokens tokens file
  first := by
    simp only [ofTokens]
    cases tokens.find? fun t => t.kind = .eof <;> rfl

namespace Ends

variable {w : Window}

theorem shown_of_eof (h : w.Ends) (hkind : w.kind = .eof) : w.shown = [w.ahead] := by
  obtain ⟨rest, ending⟩ := w
  cases rest with
  | nil => rfl
  | cons t rest =>
    have ht : t.kind = .eof := hkind
    have hfirst : t = ending := by simpa [ht] using h.first
    subst hfirst
    simp [shown, ahead, ht]

theorem shown_of_ne (h : w.Ends) (hkind : w.kind ≠ .eof) : w.shown = w.ahead :: w.advance.shown := by
  obtain ⟨rest, ending⟩ := w
  cases rest with
  | nil => exact absurd h.kind hkind
  | cons t rest =>
    have ht : t.kind ≠ .eof := hkind
    simp [shown, ahead, Window.advance, ht]

theorem exists_cons (h : w.Ends) : ∃ r, w.shown = w.ahead :: r := by
  by_cases hkind : w.kind = .eof
  · exact ⟨[], h.shown_of_eof hkind⟩
  · exact ⟨_, h.shown_of_ne hkind⟩

theorem advance (h : w.Ends) (hkind : w.kind ≠ .eof) : w.advance.Ends := by
  obtain ⟨rest, ending⟩ := w
  cases rest with
  | nil => exact h
  | cons t rest =>
    have ht : t.kind ≠ .eof := hkind
    exact ⟨h.kind, by simpa [Window.advance, ht] using h.first⟩

theorem passes (h : w.Ends) (hkind : w.kind ≠ .eof) :
    Leads w.shown (.token w.ahead) w.advance.shown := by
  rw [h.shown_of_ne hkind]
  exact .token _ _

theorem refuses (h : w.Ends) (fault : Fault) : Leads w.shown (.gap fault w.ahead) w.shown := by
  obtain ⟨r, hr⟩ := h.exists_cons
  rw [hr]
  exact .gap _ _ _

end Ends

theorem kind_ne_eof {w : Window} {k : TokenKind} (h : w.kind = k) (hk : k ≠ .eof) :
    w.kind ≠ .eof := by
  rwa [h]

/-- Both windows show the same tokens, at most `n` of them. -/
structure Alike (n : Nat) (w₁ w₂ : Window) : Prop where
  left : w₁.Ends
  right : w₂.Ends
  shown : w₁.shown = w₂.shown
  length_le : w₁.shown.length ≤ n

namespace Alike

variable {m n : Nat} {w₁ w₂ : Window}

theorem ahead (h : Alike n w₁ w₂) : w₁.ahead = w₂.ahead := by
  obtain ⟨r₁, h₁⟩ := h.left.exists_cons
  obtain ⟨r₂, h₂⟩ := h.right.exists_cons
  have heq := h.shown
  rw [h₁, h₂] at heq
  exact (List.cons.inj heq).1

theorem kind (h : Alike n w₁ w₂) : w₁.kind = w₂.kind := congrArg Token.kind h.ahead

/-- The end token is always shown. -/
theorem pos (h : Alike n w₁ w₂) : 0 < n := by
  obtain ⟨r, hr⟩ := h.left.exists_cons
  have hlength := h.length_le
  rw [hr, List.length_cons] at hlength
  omega

theorem bound (h : Alike n w₁ w₂) (hlength : w₁.shown.length ≤ m) : Alike m w₁ w₂ :=
  ⟨h.left, h.right, h.shown, hlength⟩

theorem mono (h : Alike m w₁ w₂) (hle : m ≤ n) : Alike n w₁ w₂ :=
  h.bound (Nat.le_trans h.length_le hle)

theorem advance (h : Alike (n + 1) w₁ w₂) (hkind : w₁.kind ≠ .eof) :
    Alike n w₁.advance w₂.advance := by
  have h₁ := h.left.shown_of_ne hkind
  have h₂ := h.right.shown_of_ne (h.kind ▸ hkind)
  refine ⟨h.left.advance hkind, h.right.advance (h.kind ▸ hkind), ?_, ?_⟩
  · have heq := h.shown
    rw [h₁, h₂] at heq
    exact (List.cons.inj heq).2
  · have hlength := h.length_le
    rw [h₁, List.length_cons] at hlength
    omega

theorem past (h : Alike n w₁ w₂) (hkind : w₁.kind ≠ .eof) : Alike n w₁.advance w₂.advance :=
  ((h.mono (Nat.le_succ n)).advance hkind)

end Alike

/-! ## Two runs of a reader -/

/-- Two runs from windows that show what `w` shows hand over the same tree, and they end behind its
leaves. -/
structure Agreement {α : Type} (outlineOf : α → Outline) (n : Nat) (w : Window) (x y : α × Window) :
    Prop where
  tree : x.1 = y.1
  alike : Alike n x.2 y.2
  passes : Leads w.shown (outlineOf x.1) x.2.shown

/-- What the two readers hand over depends only on the tokens shown, if these are at most `n`. -/
def Steady {α : Type} (outlineOf : α → Outline) (n : Nat) (first second : Window → α × Window) :
    Prop :=
  ∀ w₁ w₂, Alike n w₁ w₂ → Agreement outlineOf n w₁ (first w₁) (second w₂)

variable {α : Type} {outlineOf : α → Outline} {first second : Window → α × Window}
  {m n s t : Nat} {w₁ w₂ : Window}

theorem Agreement.mono {x y : α × Window} (h : Agreement outlineOf m w₁ x y) (hle : m ≤ n) :
    Agreement outlineOf n w₁ x y :=
  ⟨h.tree, h.alike.mono hle, h.passes⟩

/-- A reader that has taken a token leaves less. -/
theorem Agreement.shorter {x y : α × Window} (h : Agreement outlineOf (n + 1) w₁ x y)
    (htaken : (outlineOf x.1).tokens ≠ []) (hlength : w₁.shown.length ≤ n + 1) :
    Alike n x.2 y.2 := by
  have hlt := h.passes.length_lt htaken
  exact h.alike.bound (by omega)

/-- One round of a loop has taken a token, and the others come behind it. -/
theorem Agreement.round {β : Type} {listOutline : List β → Outline} {x y : α × Window}
    {u v : List β × Window} (a : Agreement outlineOf m w₁ x y)
    (htaken : (outlineOf x.1).tokens ≠ []) (b : Agreement listOutline n x.2 u v) (item : α → β)
    (hitem : listOutline (item x.1 :: u.1) = .round (outlineOf x.1) (listOutline u.1)) :
    Agreement listOutline (n + 1) w₁ (item x.1 :: u.1, u.2) (item y.1 :: v.1, v.2) where
  tree := by rw [a.tree, b.tree]
  alike := b.alike.mono (Nat.le_succ n)
  passes := hitem ▸ a.passes.round htaken b.passes

/-- A token that is refused and passed. -/
theorem Alike.skip (h : Alike (n + 1) w₁ w₂) (hne : w₁.kind ≠ .eof) (production : String) :
    Agreement (skippedOutline production) n w₁ (w₁.ahead, w₁.advance) (w₂.ahead, w₂.advance) :=
  ⟨h.ahead, h.advance hne, (h.left.refuses _).append (h.left.passes hne)⟩

theorem skippedOutline_takes (production : String) (token : Token) :
    (skippedOutline production token).tokens ≠ [] := by
  simp [skippedOutline]

theorem steady_zero : Steady outlineOf 0 first second := by
  intro w₁ w₂ h
  exact absurd h.pos (Nat.lt_irrefl 0)

theorem Steady.mono (h : Steady outlineOf n first second) (hle : m ≤ n) :
    Steady outlineOf m first second := by
  intro w₁ w₂ halike
  have hagree := h w₁ w₂ (halike.mono hle)
  exact ⟨hagree.tree,
    hagree.alike.bound (Nat.le_trans hagree.passes.length_le halike.length_le), hagree.passes⟩

theorem steady_expect {k : TokenKind} (hk : k ≠ .eof) (n : Nat) :
    Steady Terminal.outline n (fun w => w.expect k) fun w => w.expect k := by
  intro w₁ w₂ h
  by_cases hkind : w₁.kind = k
  · have hne := kind_ne_eof hkind hk
    simp only [expect, hkind, ← h.kind, if_true]
    exact ⟨by rw [h.ahead], h.past hne, h.left.passes hne⟩
  · simp only [expect, hkind, ← h.kind, if_false]
    exact ⟨by rw [h.ahead], h, h.left.refuses _⟩

/-! ## Lists with commas -/

theorem steady_moreItems (hitem : Steady outlineOf n first second) (h₁ : n ≤ s) (h₂ : n ≤ t) :
    Steady (Outline.loop fun other => .token other.1 ++ outlineOf other.2) n (moreItems first s)
      (moreItems second t) := by
  induction n generalizing s t with
  | zero => exact steady_zero
  | succ n ih =>
    obtain ⟨s, rfl⟩ := Nat.exists_eq_add_one_of_ne_zero (by omega : s ≠ 0)
    obtain ⟨t, rfl⟩ := Nat.exists_eq_add_one_of_ne_zero (by omega : t ≠ 0)
    have hitem' := hitem.mono (Nat.le_succ n)
    intro w₁ w₂ h
    by_cases hkind : w₁.kind = .comma
    · have hne := kind_ne_eof hkind (by decide)
      have a := hitem' _ _ (h.advance hne)
      have b := ih hitem' (Nat.le_of_succ_le_succ h₁) (Nat.le_of_succ_le_succ h₂) _ _ a.alike
      simp only [moreItems, hkind, ← h.kind, if_true]
      refine ⟨by rw [h.ahead, a.tree, b.tree], b.alike.mono (Nat.le_succ n), ?_⟩
      exact ((h.left.passes hne).append a.passes).round (by simp) b.passes
    · simp only [moreItems, hkind, ← h.kind, if_false]
      exact ⟨rfl, h, .empty _⟩

theorem steady_separated (hitem : Steady outlineOf n first second) (h₁ : n ≤ s) (h₂ : n ≤ t) :
    Steady (Separated.outline outlineOf) n (separated first s) (separated second t) := by
  intro w₁ w₂ h
  have a := hitem w₁ w₂ h
  have b := steady_moreItems hitem h₁ h₂ _ _ a.alike
  simp only [separated]
  exact ⟨by rw [a.tree, b.tree], b.alike, a.passes.append b.passes⟩

theorem steady_separatedUnlessClosed (hitem : Steady outlineOf n first second) (h₁ : n ≤ s)
    (h₂ : n ≤ t) :
    Steady (Separated.outline? outlineOf) n (separatedUnlessClosed first s)
      (separatedUnlessClosed second t) := by
  intro w₁ w₂ h
  by_cases hkind : w₁.kind = .closeParen
  · simp only [separatedUnlessClosed, hkind, ← h.kind, if_true]
    exact ⟨rfl, h, .empty _⟩
  · have a := steady_separated hitem h₁ h₂ w₁ w₂ h
    simp only [separatedUnlessClosed, hkind, ← h.kind, if_false]
    exact ⟨by rw [a.tree], a.alike, a.passes⟩

/-! ## Designators -/

theorem steady_readIndices (h₁ : n ≤ s) (h₂ : n ≤ t) :
    Steady (Outline.loop Index.outline) n (readIndices s) (readIndices t) := by
  induction n generalizing s t with
  | zero => exact steady_zero
  | succ n ih =>
    obtain ⟨s, rfl⟩ := Nat.exists_eq_add_one_of_ne_zero (by omega : s ≠ 0)
    obtain ⟨t, rfl⟩ := Nat.exists_eq_add_one_of_ne_zero (by omega : t ≠ 0)
    intro w₁ w₂ h
    by_cases hkind : w₁.kind = .openBracket
    · have hne := kind_ne_eof hkind (by decide)
      have a := steady_expect (k := .number) (by decide) n _ _ (h.advance hne)
      have b := steady_expect (k := .closeBracket) (by decide) n _ _ a.alike
      have c := ih (Nat.le_of_succ_le_succ h₁) (Nat.le_of_succ_le_succ h₂) _ _ b.alike
      simp only [readIndices, hkind, ← h.kind, if_true]
      refine ⟨by rw [h.ahead, a.tree, b.tree, c.tree], c.alike.mono (Nat.le_succ n), ?_⟩
      exact ((h.left.passes hne).append (a.passes.append b.passes)).round (by simp) c.passes
    · simp only [readIndices, hkind, ← h.kind, if_false]
      exact ⟨rfl, h, .empty _⟩

theorem Alike.expect_cases {k : TokenKind} (h : Alike n w₁ w₂) :
    (w₁.kind = k ∧ w₁.expect k = (.read w₁.ahead, w₁.advance) ∧
      w₂.expect k = (.read w₁.ahead, w₂.advance)) ∨
    (w₁.expect k = (.missing k w₁.ahead, w₁) ∧ w₂.expect k = (.missing k w₁.ahead, w₂)) := by
  by_cases hkind : w₁.kind = k
  · exact .inl ⟨hkind, by simp [expect, hkind], by simp [expect, hkind, ← h.kind, h.ahead]⟩
  · exact .inr ⟨by simp [expect, hkind], by simp [expect, hkind, ← h.kind, h.ahead]⟩

theorem steady_readMembers (h₁ : n ≤ s) (h₂ : n ≤ t) :
    Steady (Outline.loop MemberRef.outline) n (readMembers s) (readMembers t) := by
  induction n generalizing s t with
  | zero => exact steady_zero
  | succ n ih =>
    obtain ⟨s, rfl⟩ := Nat.exists_eq_add_one_of_ne_zero (by omega : s ≠ 0)
    obtain ⟨t, rfl⟩ := Nat.exists_eq_add_one_of_ne_zero (by omega : t ≠ 0)
    have h₁ := Nat.le_of_succ_le_succ h₁
    have h₂ := Nat.le_of_succ_le_succ h₂
    intro w₁ w₂ h
    by_cases hkind : w₁.kind = .dot
    · have hne := kind_ne_eof hkind (by decide)
      have hdot := h.left.passes hne
      have h' := h.advance hne
      rcases h'.expect_cases (k := .identifier) with ⟨hname, hx, hy⟩ | ⟨hx, hy⟩
      · have hname := kind_ne_eof hname (by decide)
        have a := steady_readIndices h₁ h₂ _ _ (h'.past hname)
        have b := ih h₁ h₂ _ _ a.alike
        simp only [readMembers, hkind, ← h.kind, if_true, hx, hy]
        refine ⟨by rw [h.ahead, a.tree, b.tree], b.alike.mono (Nat.le_succ n), ?_⟩
        exact (hdot.append ((h'.left.passes hname).append a.passes)).round (by simp) b.passes
      · simp only [readMembers, hkind, ← h.kind, if_true, hx, hy]
        refine ⟨by rw [h.ahead], h'.mono (Nat.le_succ n), ?_⟩
        exact (hdot.append ((h'.left.refuses _).append (.empty _))).round (by simp) (.empty _)
    · simp only [readMembers, hkind, ← h.kind, if_false]
      exact ⟨rfl, h, .empty _⟩

theorem steady_readDesignator (h₁ : n ≤ s) (h₂ : n ≤ t) :
    Steady Designator.outline n (readDesignator s) (readDesignator t) := by
  intro w₁ w₂ h
  rcases h.expect_cases (k := .identifier) with ⟨hname, hx, hy⟩ | ⟨hx, hy⟩
  · have hname := kind_ne_eof hname (by decide)
    have a := steady_readIndices h₁ h₂ _ _ (h.past hname)
    have b := steady_readMembers h₁ h₂ _ _ a.alike
    simp only [readDesignator, hx, hy]
    exact ⟨by rw [a.tree, b.tree], b.alike,
      (h.left.passes hname).append (a.passes.append b.passes)⟩
  · simp only [readDesignator, hx, hy]
    exact ⟨rfl, h, (h.left.refuses _).append ((Leads.empty _).append (.empty _))⟩

/-! ## Expressions -/

theorem factor_ne_eof {g : Grammar} {k : TokenKind} {form : FactorForm}
    (h : g.factorForm? k = some form) : k ≠ .eof := by
  rintro rfl
  cases g <;> cases h

/-- An operator takes its left operand over.  So what the operators lead on from is the place where
the left operand has started, which `w` shows. -/
def SteadyOperators (g : Grammar) (n : Nat) : Prop :=
  ∀ (s t : Nat) (power : Power) (left : Expr) (w w₁ w₂ : Window), 2 * n ≤ s + 1 →
    2 * n ≤ t + 1 → Alike n w₁ w₂ → Leads w.shown left.outline w₁.shown →
      Agreement Expr.outline n w (readOperators g s power left w₁) (readOperators g t power left w₂)

structure SteadyExprs (g : Grammar) (n : Nat) : Prop where
  expr : ∀ {s t : Nat} (power : Power), 2 * n ≤ s → 2 * n ≤ t →
    Steady Expr.outline n (readExpr g s power) (readExpr g t power)
  operators : SteadyOperators g n

namespace SteadyExprs

variable {g : Grammar}

theorem readFactor (ih : SteadyExprs g n) {form : FactorForm} (h₁ : 2 * n + 1 ≤ s)
    (h₂ : 2 * n + 1 ≤ t) (h : Alike (n + 1) w₁ w₂) (hform : g.factorForm? w₁.kind = some form) :
    Agreement Expr.outline (n + 1) w₁ (readFactor g s form w₁) (readFactor g t form w₂) := by
  obtain ⟨s, rfl⟩ := Nat.exists_eq_add_one_of_ne_zero (by omega : s ≠ 0)
  obtain ⟨t, rfl⟩ := Nat.exists_eq_add_one_of_ne_zero (by omega : t ≠ 0)
  have h₁ := Nat.le_of_succ_le_succ h₁
  have h₂ := Nat.le_of_succ_le_succ h₂
  have hne := factor_ne_eof hform
  have htoken := h.left.passes hne
  cases form with
  | number | boolean =>
    simp only [Window.readFactor]
    exact ⟨by rw [h.ahead], h.past hne, htoken⟩
  | designator =>
    have a := steady_readDesignator (s := s + 1) (t := t + 1) (by omega) (by omega) _ _ h
    simp only [Window.readFactor]
    exact ⟨by rw [a.tree], a.alike, a.passes⟩
  | negation =>
    have a := ih.expr .unary h₁ h₂ _ _ (h.advance hne)
    simp only [Window.readFactor]
    exact ⟨by rw [h.ahead, a.tree], a.alike.mono (Nat.le_succ n), htoken.append a.passes⟩
  | grouping =>
    have a := ih.expr .lowest h₁ h₂ _ _ (h.advance hne)
    have b := steady_expect (k := .closeParen) (by decide) n _ _ a.alike
    simp only [Window.readFactor]
    exact ⟨by rw [h.ahead, a.tree, b.tree], b.alike.mono (Nat.le_succ n),
      htoken.append (a.passes.append b.passes)⟩

theorem readOperators (ih : SteadyExprs g n) : SteadyOperators g (n + 1) := by
  intro s t power left w w₁ w₂ h₁ h₂ h hleft
  obtain ⟨s, rfl⟩ := Nat.exists_eq_add_one_of_ne_zero (by omega : s ≠ 0)
  obtain ⟨t, rfl⟩ := Nat.exists_eq_add_one_of_ne_zero (by omega : t ≠ 0)
  simp only [Window.readOperators, ← h.kind]
  cases hop : g.operator? w₁.kind with
  | none => exact ⟨rfl, h, hleft⟩
  | some op =>
    obtain ⟨opPower, form⟩ := op
    by_cases hpower : power.rank < opPower.rank
    · have hne := operator_ne_eof hop
      have a := ih.expr (s := s) (t := t) opPower (by omega) (by omega) _ _ (h.advance hne)
      have hround := ((h.left.passes hne).append a.passes).round (by simp) (.empty _)
      have hpasses : Leads w.shown
          (Expr.operation form left w₁.ahead (readExpr g s opPower w₁.advance).1).outline
          (readExpr g s opPower w₁.advance).2.shown := by
        cases form <;> exact hleft.append hround
      simp only [hpower, if_true, ← h.ahead, ← a.tree]
      exact (ih.operators _ _ power _ _ _ _ (by omega) (by omega) a.alike hpasses).mono
        (Nat.le_succ n)
    · simp only [hpower, if_false]
      exact ⟨rfl, h, hleft⟩

end SteadyExprs

theorem steadyExprs (g : Grammar) (n : Nat) : SteadyExprs g n := by
  induction n with
  | zero =>
    constructor
    · intro s t power _ _
      exact steady_zero
    · intro s t power left w w₁ w₂ _ _ h
      exact absurd h.pos (Nat.lt_irrefl 0)
  | succ n ih =>
    refine ⟨?_, ih.readOperators⟩
    intro s t power h₁ h₂ w₁ w₂ h
    obtain ⟨s, rfl⟩ := Nat.exists_eq_add_one_of_ne_zero (by omega : s ≠ 0)
    obtain ⟨t, rfl⟩ := Nat.exists_eq_add_one_of_ne_zero (by omega : t ≠ 0)
    simp only [readExpr, ← h.kind]
    cases hform : g.factorForm? w₁.kind with
    | none => exact ⟨by rw [h.ahead], h, h.left.refuses _⟩
    | some form =>
      have a := ih.readFactor (s := s) (t := t) (by omega) (by omega) h hform
      simp only [← a.tree]
      exact ih.readOperators _ _ power _ _ _ _ (by omega) (by omega) a.alike a.passes

variable {g : Grammar}

theorem steady_readExpr (power : Power) (h₁ : 2 * n ≤ s) (h₂ : 2 * n ≤ t) :
    Steady Expr.outline n (fun w => w.readExpr g s power) fun w => w.readExpr g t power :=
  (steadyExprs g n).expr power h₁ h₂

/-! ## Declarations -/

theorem steady_readScalarSpec (n : Nat) :
    Steady ScalarSpec.outline n readScalarSpec readScalarSpec := by
  intro w₁ w₂ h
  by_cases hkind : w₁.kind = .kwInt ∨ w₁.kind = .kwBool
  · have hne : w₁.kind ≠ .eof := by rcases hkind with hkind | hkind <;> rw [hkind] <;> decide
    simp only [readScalarSpec, ← h.kind, hkind, if_true]
    exact ⟨by rw [h.ahead], h.past hne, h.left.passes hne⟩
  · simp only [readScalarSpec, ← h.kind, hkind, if_false]
    exact ⟨by rw [h.ahead], h, h.left.refuses _⟩

theorem steady_readTypeSpec (n : Nat) : Steady TypeSpec.outline n readTypeSpec readTypeSpec := by
  intro w₁ w₂ h
  by_cases hkind : w₁.kind = .kwStruct
  · have hne := kind_ne_eof hkind (by decide)
    have a := steady_expect (k := .identifier) (by decide) n _ _ (h.past hne)
    simp only [readTypeSpec, ← h.kind, hkind, if_true]
    exact ⟨by rw [h.ahead, a.tree], a.alike, (h.left.passes hne).append a.passes⟩
  · have a := steady_readScalarSpec n w₁ w₂ h
    simp only [readTypeSpec, ← h.kind, hkind, if_false]
    exact ⟨by rw [a.tree], a.alike, a.passes⟩

theorem readTypeSpec_takes {w : Window}
    (h : w.kind = .kwInt ∨ w.kind = .kwBool ∨ w.kind = .kwStruct) :
    w.readTypeSpec.1.outline.tokens ≠ [] := by
  rcases h with h | h | h <;> simp [readTypeSpec, readScalarSpec, h, TypeSpec.outline,
    ScalarSpec.outline]

theorem steady_readConstEntry (h₁ : 2 * n ≤ s) (h₂ : 2 * n ≤ t) :
    Steady ConstEntry.outline n (readConstEntry g s) (readConstEntry g t) := by
  intro w₁ w₂ h
  have a := steady_readScalarSpec n w₁ w₂ h
  rcases a.alike.expect_cases (k := .identifier) with ⟨hname, hx, hy⟩ | ⟨hx, hy⟩
  · have hname := kind_ne_eof hname (by decide)
    have b := steady_expect (k := .assignment) (by decide) n _ _ (a.alike.past hname)
    have c := steady_readExpr (g := g) .lowest h₁ h₂ _ _ b.alike
    simp only [readConstEntry, hx, hy]
    exact ⟨by rw [a.tree, b.tree, c.tree], c.alike,
      a.passes.append ((a.alike.left.passes hname).append (b.passes.append c.passes))⟩
  · simp only [readConstEntry, hx, hy]
    exact ⟨by rw [a.tree], a.alike, a.passes.append ((a.alike.left.refuses _).append (.empty _))⟩

theorem steady_readDeclarator (h₁ : n ≤ s) (h₂ : n ≤ t) :
    Steady Declarator.outline n (readDeclarator s) (readDeclarator t) := by
  intro w₁ w₂ h
  rcases h.expect_cases (k := .identifier) with ⟨hname, hx, hy⟩ | ⟨hx, hy⟩
  · have hname := kind_ne_eof hname (by decide)
    have a := steady_readIndices h₁ h₂ _ _ (h.past hname)
    simp only [readDeclarator, hx, hy]
    exact ⟨by rw [a.tree], a.alike, (h.left.passes hname).append a.passes⟩
  · simp only [readDeclarator, hx, hy]
    exact ⟨rfl, h, (h.left.refuses _).append (.empty _)⟩

theorem readDeclarators_agree {w : Window} {ty : TypeSpec} (h₁ : n ≤ s) (h₂ : n ≤ t)
    (h : Alike n w₁ w₂) (hty : Leads w.shown ty.outline w₁.shown) :
    Agreement Declaration.outline n w (w₁.readDeclarators s ty) (w₂.readDeclarators t ty) := by
  have a := steady_separated (steady_readDeclarator h₁ h₂) h₁ h₂ _ _ h
  have b := steady_expect (k := .semicolon) (by decide) n _ _ a.alike
  simp only [readDeclarators]
  exact ⟨by rw [a.tree, b.tree], b.alike, hty.append (a.passes.append b.passes)⟩

theorem Alike.atListEnd (h : Alike n w₁ w₂) : w₁.atListEnd = w₂.atListEnd := by
  rw [Window.atListEnd, Window.atListEnd, h.kind]

theorem ne_eof_of_not_atListEnd {w : Window} (h : ¬w.atListEnd = true) : w.kind ≠ .eof := by
  intro heof
  simp [Window.atListEnd, heof] at h

theorem steady_readStructItems (h₁ : n ≤ s) (h₂ : n ≤ t) :
    Steady (Outline.loop StructItem.outline) n (readStructItems s) (readStructItems t) := by
  induction n generalizing s t with
  | zero => exact steady_zero
  | succ n ih =>
    obtain ⟨s, rfl⟩ := Nat.exists_eq_add_one_of_ne_zero (by omega : s ≠ 0)
    obtain ⟨t, rfl⟩ := Nat.exists_eq_add_one_of_ne_zero (by omega : t ≠ 0)
    have h₁ := Nat.le_of_succ_le_succ h₁
    have h₂ := Nat.le_of_succ_le_succ h₂
    intro w₁ w₂ h
    simp only [readStructItems, ← h.atListEnd, ← h.kind]
    by_cases hend : w₁.atListEnd = true
    · simp only [hend, if_true]
      exact ⟨rfl, h, .empty _⟩
    by_cases hkind : w₁.kind = .kwInt ∨ w₁.kind = .kwBool ∨ w₁.kind = .kwStruct
    · have a := steady_readTypeSpec (n + 1) w₁ w₂ h
      have htaken := readTypeSpec_takes hkind
      have b := steady_expect (k := .identifier) (by decide) n _ _ (a.shorter htaken h.length_le)
      have c := steady_readIndices h₁ h₂ _ _ b.alike
      have d := steady_expect (k := .semicolon) (by decide) n _ _ c.alike
      have e := ih h₁ h₂ _ _ d.alike
      simp only [hend, hkind, if_true, if_false, Bool.false_eq_true]
      refine ⟨by rw [a.tree, b.tree, c.tree, d.tree, e.tree], e.alike.mono (Nat.le_succ n), ?_⟩
      exact (a.passes.append (b.passes.append (c.passes.append d.passes))).round (by simp [htaken])
        e.passes
    · have a := h.skip (ne_eof_of_not_atListEnd hend) "Decl"
      have b := ih h₁ h₂ _ _ a.alike
      simp only [hend, hkind, if_false, Bool.false_eq_true]
      exact a.round (skippedOutline_takes _ _) b .skipped rfl

theorem readConst_agree (h₁ : 2 * n ≤ s) (h₂ : 2 * n ≤ t) (h : Alike n w₁ w₂)
    (hne : w₁.kind ≠ .eof) :
    Agreement Declaration.outline n w₁ (w₁.readConst g s) (w₂.readConst g t) := by
  have a := steady_separated (steady_readConstEntry (g := g) h₁ h₂) (s := s) (t := t)
    (by omega) (by omega) _ _ (h.past hne)
  have b := steady_expect (k := .semicolon) (by decide) n _ _ a.alike
  simp only [readConst]
  exact ⟨by rw [h.ahead, a.tree, b.tree], b.alike,
    (h.left.passes hne).append (a.passes.append b.passes)⟩

theorem readStruct_agree (h₁ : n ≤ s) (h₂ : n ≤ t) (h : Alike n w₁ w₂) (hne : w₁.kind ≠ .eof) :
    Agreement Declaration.outline n w₁ (w₁.readStruct s) (w₂.readStruct t) := by
  have a := steady_expect (k := .identifier) (by decide) n _ _ (h.past hne)
  have htype := (h.left.passes hne).append a.passes
  by_cases hkind : (w₁.advance.expect .identifier).2.kind = .openCurly
  · have b := steady_expect (k := .openCurly) (by decide) n _ _ a.alike
    have c := steady_readStructItems h₁ h₂ _ _ b.alike
    have d := steady_expect (k := .closeCurly) (by decide) n _ _ c.alike
    have e := steady_expect (k := .semicolon) (by decide) n _ _ d.alike
    simp only [readStruct, ← a.alike.kind, hkind, if_true]
    exact ⟨by rw [h.ahead, a.tree, b.tree, c.tree, d.tree, e.tree], e.alike,
      (h.left.passes hne).append (a.passes.append (b.passes.append (c.passes.append
        (d.passes.append e.passes))))⟩
  · simp only [readStruct, ← a.alike.kind, hkind, if_false, ← h.ahead, ← a.tree]
    exact readDeclarators_agree h₁ h₂ a.alike htype

theorem readVars_agree (h₁ : n ≤ s) (h₂ : n ≤ t) (h : Alike n w₁ w₂) :
    Agreement Declaration.outline n w₁ (w₁.readVars s) (w₂.readVars t) := by
  have a := steady_readTypeSpec n w₁ w₂ h
  simp only [readVars, ← a.tree]
  exact readDeclarators_agree h₁ h₂ a.alike a.passes

theorem readDeclaration_takes {s : Nat} {w : Window} {x : Declaration × Window}
    (h : w.readDeclaration? g s = some x) : x.1.outline.tokens ≠ [] := by
  unfold readDeclaration? at h
  split at h
  next => cases h; simp [readConst, Declaration.outline]
  next hkind =>
    cases h
    simp [readVars, readDeclarators, Declaration.outline, readTypeSpec_takes (.inl hkind)]
  next hkind =>
    cases h
    simp [readVars, readDeclarators, Declaration.outline, readTypeSpec_takes (.inr (.inl hkind))]
  next =>
    cases h
    simp only [readStruct]
    split <;> simp [readDeclarators, Declaration.outline, TypeSpec.outline]
  next => cases h

/-- A declaration is opened for both windows or for none. -/
theorem readDeclaration_agree (h₁ : 2 * n ≤ s) (h₂ : 2 * n ≤ t) (h : Alike n w₁ w₂) :
    (w₁.readDeclaration? g s = none ∧ w₂.readDeclaration? g t = none) ∨
    ∃ x y, w₁.readDeclaration? g s = some x ∧ w₂.readDeclaration? g t = some y ∧
      Agreement Declaration.outline n w₁ x y := by
  have hvars := readVars_agree (s := s) (t := t) (by omega) (by omega) h
  simp only [readDeclaration?, ← h.kind]
  split
  next hkind =>
    exact .inr ⟨_, _, rfl, rfl, readConst_agree h₁ h₂ h (kind_ne_eof hkind (by decide))⟩
  next => exact .inr ⟨_, _, rfl, rfl, hvars⟩
  next => exact .inr ⟨_, _, rfl, rfl, hvars⟩
  next hkind =>
    exact .inr ⟨_, _, rfl, rfl, readStruct_agree (by omega) (by omega) h (kind_ne_eof hkind (by decide))⟩
  next => exact .inl ⟨rfl, rfl⟩

end Window
end SlotLang
