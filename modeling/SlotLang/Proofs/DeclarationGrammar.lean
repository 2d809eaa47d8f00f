import SlotLang.Proofs.ExpressionGrammar

/-!
# Declarations of storage and structs

The readers of constants, variables and structs are sound and complete.  All three end with a
semicolon of their own, and so it does not matter what follows them.
-/

namespace SlotLang

open TokenKind

namespace Window

variable {n steps : Nat}

/-! ## Declarations without gaps -/

theorem sound_readScalarSpec : Sound ScalarSpec.gaps (.rule .scalar) readScalarSpec := by
  intro w u h hgaps
  unfold readScalarSpec at hgaps ⊢
  split
  next hkind =>
    rcases hkind with hkind | hkind
    · obtain ⟨r, rfl, hr⟩ := h.passes hkind (by decide)
      exact ⟨r, hr, spans_scalar.mpr (.inl rfl)⟩
    · obtain ⟨r, rfl, hr⟩ := h.passes hkind (by decide)
      exact ⟨r, hr, spans_scalar.mpr (.inr rfl)⟩
  next hkind => simp [hkind, ScalarSpec.gaps] at hgaps

theorem sound_readTypeSpec : Sound TypeSpec.gaps .memberType readTypeSpec := by
  intro w u h hgaps
  unfold readTypeSpec at hgaps ⊢
  split
  next hkind =>
    rw [if_pos hkind] at hgaps
    obtain ⟨v, rfl, hv⟩ := h.passes hkind (by decide)
    obtain ⟨r, rfl, hr⟩ := expect_passes hv (by decide) hgaps
    exact ⟨r, hr, spans_memberType.mpr (.inr rfl)⟩
  next hkind =>
    rw [if_neg hkind] at hgaps
    obtain ⟨r, hr, hspans⟩ := sound_readScalarSpec w u h hgaps
    exact ⟨r, hr, spans_memberType.mpr (.inl hspans)⟩

theorem sound_readConstEntry (g : Grammar) (steps : Nat) :
    Sound ConstEntry.gaps .constEntry (readConstEntry g steps) := by
  intro w u h hgaps
  unfold readConstEntry at hgaps ⊢
  dsimp only at hgaps ⊢
  split
  next heq => simp [heq, ConstEntry.gaps, Terminal.gaps] at hgaps
  next heq =>
    simp only [heq, ConstEntry.gaps, Terminal.gaps, Terminal.value?, Terminal.token?,
      Option.map_some, List.nil_append, List.append_eq_nil_iff] at hgaps
    obtain ⟨v₁, h₁, hty⟩ := sound_readScalarSpec w u h hgaps.1
    obtain ⟨v₂, rfl, h₂⟩ := expect_read heq h₁ (by decide)
    obtain ⟨v₃, rfl, h₃⟩ := expect_passes h₂ (by decide) hgaps.2.1
    obtain ⟨r, hr, hvalue⟩ := sound_readExpr g steps _ v₃ h₃ hgaps.2.2
    exact ⟨r, hr, spans_constEntry.mpr ⟨v₃, hty, hvalue⟩⟩

theorem sound_readDeclarator (steps : Nat) :
    Sound Declarator.gaps (.rule .declarator) (readDeclarator steps) := by
  intro w u h hgaps
  unfold readDeclarator at hgaps ⊢
  split
  next heq => simp [heq, Declarator.gaps, Terminal.gaps] at hgaps
  next heq =>
    simp only [heq, Declarator.gaps, Terminal.gaps, List.nil_append] at hgaps
    obtain ⟨v, rfl, hv⟩ := expect_read heq h (by decide)
    obtain ⟨r, hr, hindices⟩ := sound_readIndices steps _ v hv hgaps
    exact ⟨r, hr, spans_declarator.mpr ⟨v, rfl, hindices⟩⟩

theorem gaps_readDeclarators {steps : Nat} {ty : TypeSpec} {w : Window}
    (h : (w.readDeclarators steps ty).1.gaps = []) : ty.gaps = [] := by
  simp only [readDeclarators, Declaration.gaps, List.append_eq_nil_iff] at h
  exact h.1

theorem readDeclarators_passes {steps : Nat} {ty : TypeSpec} {w : Window} {u : List TokenKind}
    (h : w.Shows u) (hgaps : (w.readDeclarators steps ty).1.gaps = []) :
    ∃ r, (w.readDeclarators steps ty).2.Shows r ∧
      Spans (Phrase.rule .declarator).commaList u (.semicolon :: r) := by
  simp only [readDeclarators, Declaration.gaps, List.append_eq_nil_iff] at hgaps ⊢
  obtain ⟨m, hm, hitems⟩ := sound_separated (sound_readDeclarator steps) steps w u h hgaps.2.1
  obtain ⟨r, rfl, hr⟩ := expect_passes hm (by decide) hgaps.2.2
  exact ⟨r, hr, hitems⟩

theorem sound_readStructItems (steps : Nat) :
    Sound (fun items => items.flatMap StructItem.gaps) (.repetition .member)
      (readStructItems steps) := by
  induction steps with
  | zero =>
    intro w u h _
    exact ⟨u, h, .stop _ u⟩
  | succ steps ih =>
    intro w u h hgaps
    unfold readStructItems at hgaps ⊢
    split
    next => exact ⟨u, h, .stop _ u⟩
    next hend =>
      rw [if_neg hend] at hgaps
      split
      next hkind =>
        simp only [hkind, if_true, List.flatMap_cons, StructItem.gaps,
          List.append_eq_nil_iff] at hgaps
        obtain ⟨v₁, h₁, hty⟩ := sound_readTypeSpec w u h hgaps.1.1
        obtain ⟨v₂, rfl, h₂⟩ := expect_passes h₁ (by decide) hgaps.1.2.1
        obtain ⟨v₃, h₃, hindices⟩ := sound_readIndices steps _ v₂ h₂ hgaps.1.2.2.1
        obtain ⟨v₄, rfl, h₄⟩ := expect_passes h₃ (by decide) hgaps.1.2.2.2
        obtain ⟨r, hr, hmore⟩ := ih _ v₄ h₄ hgaps.2
        have hdeclarator := spans_declarator.mpr ⟨v₂, rfl, hindices⟩
        exact ⟨r, hr, .again (spans_member.mpr ⟨_, hty, hdeclarator⟩) hmore⟩
      next hkind => simp [hkind, StructItem.gaps] at hgaps

theorem soundAt_readConst (g : Grammar) (steps : Nat) :
    SoundAt .kwConst Declaration.gaps (.rule .const) (readConst g steps) := by
  intro w u hkind h hgaps
  simp only [readConst, Declaration.gaps, List.append_eq_nil_iff] at hgaps ⊢
  obtain ⟨v, rfl, hv⟩ := h.passes hkind (by decide)
  obtain ⟨m, hm, hitems⟩ := sound_separated (sound_readConstEntry g steps) steps _ v hv hgaps.1
  obtain ⟨r, rfl, hr⟩ := expect_passes hm (by decide) hgaps.2
  exact ⟨r, hr, spans_const.mpr ⟨v, rfl, hitems⟩⟩

theorem readVars_passes {steps : Nat} {w : Window} {u : List TokenKind}
    (hkind : w.kind ≠ .kwStruct) (h : w.Shows u) (hgaps : (w.readVars steps).1.gaps = []) :
    ∃ r, (w.readVars steps).2.Shows r ∧ Spans (.rule .vars) u r := by
  simp only [readVars] at hgaps ⊢
  obtain ⟨m, hm, hty⟩ := sound_readTypeSpec w u h (gaps_readDeclarators hgaps)
  obtain ⟨r, hr, hitems⟩ := readDeclarators_passes hm hgaps
  rcases spans_memberType.mp hty with hscalar | rfl
  · exact ⟨r, hr, spans_vars.mpr ⟨m, hscalar, hitems⟩⟩
  · exact absurd h.kind_eq hkind

theorem soundAt_readStruct (steps : Nat) :
    SoundAt .kwStruct Declaration.gaps (.rule .struct) (readStruct steps) := by
  intro w u hkind h hgaps
  obtain ⟨v, rfl, hv⟩ := h.passes hkind (by decide)
  simp only [readStruct] at hgaps ⊢
  split
  next hcurly =>
    simp only [hcurly, if_true, Declaration.gaps, List.append_eq_nil_iff] at hgaps
    obtain ⟨v₁, rfl, h₁⟩ := expect_passes hv (by decide) hgaps.1
    obtain ⟨v₂, rfl, h₂⟩ := expect_passes h₁ (by decide) hgaps.2.1
    obtain ⟨v₃, h₃, hitems⟩ := sound_readStructItems steps _ v₂ h₂ hgaps.2.2.1
    obtain ⟨v₄, rfl, h₄⟩ := expect_passes h₃ (by decide) hgaps.2.2.2.1
    obtain ⟨r, rfl, hr⟩ := expect_passes h₄ (by decide) hgaps.2.2.2.2
    exact ⟨r, hr, spans_struct.mpr (.inl ⟨v₂, rfl, hitems⟩)⟩
  next hcurly =>
    rw [if_neg hcurly] at hgaps
    obtain ⟨v₁, rfl, h₁⟩ := expect_passes hv (by decide) (gaps_readDeclarators hgaps)
    obtain ⟨r, hr, hitems⟩ := readDeclarators_passes h₁ hgaps
    exact ⟨r, hr, spans_struct.mpr (.inr ⟨v₁, rfl, hitems⟩)⟩

theorem readDeclaration_passes {g : Grammar} {steps : Nat} {w w' : Window} {u : List TokenKind}
    {d : Declaration} (heq : w.readDeclaration? g steps = some (d, w')) (h : w.Shows u)
    (hgaps : d.gaps = []) :
    ∃ r, w'.Shows r ∧ ∃ rule ∈ declarationRules, Spans (.rule rule) u r := by
  unfold readDeclaration? at heq
  split at heq
  next hkind =>
    obtain ⟨rfl, rfl⟩ := Prod.mk.inj (Option.some.inj heq)
    obtain ⟨r, hr, hspans⟩ := soundAt_readConst g steps w u hkind h hgaps
    exact ⟨r, hr, .const, by decide, hspans⟩
  next hkind =>
    obtain ⟨rfl, rfl⟩ := Prod.mk.inj (Option.some.inj heq)
    obtain ⟨r, hr, hspans⟩ := readVars_passes (by simp [hkind]) h hgaps
    exact ⟨r, hr, .vars, by decide, hspans⟩
  next hkind =>
    obtain ⟨rfl, rfl⟩ := Prod.mk.inj (Option.some.inj heq)
    obtain ⟨r, hr, hspans⟩ := readVars_passes (by simp [hkind]) h hgaps
    exact ⟨r, hr, .vars, by decide, hspans⟩
  next hkind =>
    obtain ⟨rfl, rfl⟩ := Prod.mk.inj (Option.some.inj heq)
    obtain ⟨r, hr, hspans⟩ := soundAt_readStruct steps w u hkind h hgaps
    exact ⟨r, hr, .struct, by decide, hspans⟩
  next => contradiction

/-! ## Declarations that derive from the grammar -/

theorem complete_readScalarSpec :
    Complete ScalarSpec.gaps (.rule .scalar) Anything n readScalarSpec := by
  intro w u r hlen h hspans _
  unfold readScalarSpec
  rcases spans_scalar.mp hspans with rfl | rfl
  · rw [if_pos (.inl h.kind_eq)]
    exact ⟨rfl, h.advance (by decide)⟩
  · rw [if_pos (.inr h.kind_eq)]
    exact ⟨rfl, h.advance (by decide)⟩

theorem complete_readTypeSpec : Complete TypeSpec.gaps .memberType Anything n readTypeSpec := by
  intro w u r hlen h hspans _
  unfold readTypeSpec
  rcases spans_memberType.mp hspans with hscalar | rfl
  · have hkind := h.next (opens_scalar u r hscalar).1
    rw [if_neg (by intro heq; simp [heq, opensScalar] at hkind)]
    exact complete_readScalarSpec w u r hlen h hscalar trivial
  · rw [if_pos h.kind_eq]
    exact (h.advance (by decide)).expect (by decide)

theorem complete_readConstEntry (hsteps : 2 * n ≤ steps) :
    Complete ConstEntry.gaps .constEntry (Next endsExpr) n (readConstEntry .full steps) := by
  intro w u r hlen h hspans hr
  obtain ⟨m, hscalar, hvalue⟩ := spans_constEntry.mp hspans
  obtain ⟨g₁, h₁⟩ := complete_readScalarSpec w u _ hlen h hscalar trivial
  obtain ⟨g₂, h₂⟩ := (h₁.advance (by decide)).expect (by decide)
  obtain ⟨g₃, h₃⟩ := complete_readExpr hsteps _ m r (by grind) h₂ hvalue hr
  simp only [readConstEntry, h₁.expect_eq, ConstEntry.gaps, Terminal.gaps, Terminal.value?,
    Terminal.token?, Option.map_some, List.nil_append, List.append_eq_nil_iff]
  exact ⟨⟨g₁, g₂, g₃⟩, h₃⟩

theorem complete_readDeclarator (hsteps : n ≤ steps) :
    Complete Declarator.gaps (.rule .declarator) (Next (· != .openBracket)) n
      (readDeclarator steps) := by
  intro w u r hlen h hspans hr
  obtain ⟨m, rfl, hindices⟩ := spans_declarator.mp hspans
  simp only [readDeclarator, h.expect_eq, Declarator.gaps, Terminal.gaps, List.nil_append]
  exact complete_readIndices hsteps _ m r (by grind) (h.advance (by decide)) hindices hr

theorem readDeclarators_complete (hsteps : n ≤ steps) {ty : TypeSpec} {w : Window}
    {u r : List TokenKind} (hty : ty.gaps = []) (hlen : u.length ≤ n) (h : w.Shows u)
    (hspans : Spans (Phrase.rule .declarator).commaList u (.semicolon :: r)) :
    (w.readDeclarators steps ty).1.gaps = [] ∧ (w.readDeclarators steps ty).2.Shows r := by
  obtain ⟨g₁, h₁⟩ := complete_separated (complete_readDeclarator hsteps) rfl hsteps w u _ hlen h
    hspans rfl
  obtain ⟨g₂, h₂⟩ := h₁.expect (by decide)
  simp only [readDeclarators, Declaration.gaps, List.append_eq_nil_iff]
  exact ⟨⟨hty, g₁, g₂⟩, h₂⟩

theorem complete_readStructItems (hsteps : n ≤ steps) :
    Complete (fun items => items.flatMap StructItem.gaps) (.repetition .member)
      (Next (· == .closeCurly)) n (readStructItems steps) := by
  induction n generalizing steps with
  | zero => exact complete_zero
  | succ n ih =>
    cases steps with
    | zero => contradiction
    | succ steps =>
    have hbounds := complete_readIndices (Nat.le_of_succ_le_succ hsteps)
    have ih := ih (Nat.le_of_succ_le_succ hsteps)
    intro w u r hlen h hspans hr
    unfold readStructItems
    rcases spans_repetition.mp hspans with rfl | ⟨m, hfirst, hmore⟩
    · have hstop := h.next hr
      rw [beq_iff_eq] at hstop
      rw [if_pos (by simp [atListEnd, hstop])]
      exact ⟨rfl, h⟩
    · have hkind := h.next (opens_member u m hfirst).1
      simp only [opensScalar, Bool.or_eq_true, decide_eq_true_eq, beq_iff_eq] at hkind
      rw [if_neg (by rcases hkind with (hkind | hkind) | hkind <;> simp [atListEnd, hkind]),
        if_pos (or_assoc.mp hkind)]
      simp only [List.flatMap_cons, StructItem.gaps, List.append_eq_nil_iff]
      obtain ⟨l, htype, hdeclarator⟩ := spans_member.mp hfirst
      obtain ⟨l, rfl, hindices⟩ := spans_declarator.mp hdeclarator
      obtain ⟨g₁, h₁⟩ := complete_readTypeSpec w u _ hlen h htype trivial
      obtain ⟨g₂, h₂⟩ := h₁.expect (by decide)
      have hlt := (opens_memberType u _ htype).2
      obtain ⟨g₃, h₃⟩ := hbounds _ l _ (by grind) h₂ hindices rfl
      obtain ⟨g₄, h₄⟩ := h₃.expect (by decide)
      obtain ⟨g₅, h₅⟩ := ih _ m r (by grind) h₄ hmore hr
      exact ⟨⟨⟨g₁, g₂, g₃, g₄⟩, g₅⟩, h₅⟩

theorem readConst_complete (hsteps : 2 * n ≤ steps) {w : Window} {u r : List TokenKind}
    (hlen : u.length ≤ n) (h : w.Shows u) (hspans : Spans (.rule .const) u r) :
    w.kind = .kwConst ∧ (w.readConst .full steps).1.gaps = [] ∧
      (w.readConst .full steps).2.Shows r := by
  obtain ⟨m, rfl, hentries⟩ := spans_const.mp hspans
  have hitems : n ≤ steps := by omega
  obtain ⟨g₁, h₁⟩ := complete_separated (complete_readConstEntry hsteps) rfl hitems _ m _
    (by grind) (h.advance (by decide)) hentries rfl
  obtain ⟨g₂, h₂⟩ := h₁.expect (by decide)
  simp only [readConst, Declaration.gaps, List.append_eq_nil_iff]
  exact ⟨h.kind_eq, ⟨g₁, g₂⟩, h₂⟩

theorem readVars_complete (hsteps : n ≤ steps) {w : Window} {u r : List TokenKind}
    (hlen : u.length ≤ n) (h : w.Shows u) (hspans : Spans (.rule .vars) u r) :
    opensScalar w.kind = true ∧ (w.readVars steps).1.gaps = [] ∧ (w.readVars steps).2.Shows r := by
  obtain ⟨m, hscalar, hitems⟩ := spans_vars.mp hspans
  obtain ⟨g₁, h₁⟩ := complete_readTypeSpec w u m hlen h (spans_memberType.mpr (.inl hscalar)) trivial
  exact ⟨h.next (opens_scalar u m hscalar).1,
    readDeclarators_complete hsteps g₁ (by grind) h₁ hitems⟩

theorem readStruct_complete (hsteps : n ≤ steps) {w : Window} {u r : List TokenKind}
    (hlen : u.length ≤ n) (h : w.Shows u) (hspans : Spans (.rule .struct) u r) :
    w.kind = .kwStruct ∧ (w.readStruct steps).1.gaps = [] ∧ (w.readStruct steps).2.Shows r := by
  unfold readStruct
  rcases spans_struct.mp hspans with ⟨m, rfl, hmembers⟩ | ⟨m, rfl, hitems⟩
  · obtain ⟨g₁, h₁⟩ := (h.advance (by decide)).expect (by decide)
    obtain ⟨g₂, h₂⟩ := h₁.expect (by decide)
    obtain ⟨g₃, h₃⟩ := complete_readStructItems hsteps _ m _ (by grind) h₂ hmembers rfl
    obtain ⟨g₄, h₄⟩ := h₃.expect (by decide)
    obtain ⟨g₅, h₅⟩ := h₄.expect (by decide)
    simp only [if_pos h₁.kind_eq, Declaration.gaps, List.append_eq_nil_iff]
    exact ⟨h.kind_eq, ⟨g₁, g₂, g₃, g₄, g₅⟩, h₅⟩
  · obtain ⟨g₁, h₁⟩ := (h.advance (by decide)).expect (by decide)
    obtain ⟨l, hfirst, -⟩ := spans_commaList.mp hitems
    have hkind := h₁.next (opens_declarator m l hfirst).1
    rw [beq_iff_eq] at hkind
    simp only [hkind, reduceCtorEq, if_false]
    exact ⟨h.kind_eq, readDeclarators_complete hsteps g₁ (by grind) h₁ hitems⟩

theorem readDeclaration_complete (hsteps : 2 * n ≤ steps) {rule : Rule} {w : Window}
    {u r : List TokenKind} (hlen : u.length ≤ n) (h : w.Shows u) (hmem : rule ∈ declarationRules)
    (hspans : Spans (.rule rule) u r) :
    ∃ d w', w.readDeclaration? .full steps = some (d, w') ∧ d.gaps = [] ∧ w'.Shows r := by
  have hle : n ≤ steps := by omega
  simp only [declarationRules, List.mem_cons, List.not_mem_nil, or_false] at hmem
  rcases hmem with rfl | rfl | rfl
  · obtain ⟨hkind, hread⟩ := readConst_complete hsteps hlen h hspans
    exact ⟨_, _, by simp [readDeclaration?, hkind], hread⟩
  · obtain ⟨hkind, hread⟩ := readVars_complete hle hlen h hspans
    simp only [opensScalar, Bool.or_eq_true, decide_eq_true_eq] at hkind
    exact ⟨_, _, by rcases hkind with hkind | hkind <;> simp [readDeclaration?, hkind], hread⟩
  · obtain ⟨hkind, hread⟩ := readStruct_complete hle hlen h hspans
    exact ⟨_, _, by simp [readDeclaration?, hkind], hread⟩

/-! ## Lists in braces -/

theorem atListEnd_of_next {w : Window} {u : List TokenKind} (h : w.Shows u)
    (hnext : Next (· == .closeCurly) u) : w.atListEnd = true := by
  have hkind := h.next hnext
  rw [beq_iff_eq] at hkind
  simp [atListEnd, hkind]

theorem not_atListEnd {w : Window} {u : List TokenKind} (h : w.Shows u)
    (hnext : Next opensItem u) : ¬ w.atListEnd = true := by
  have hkind := ne_of_opensItem (h.next hnext)
  simp [atListEnd, hkind]

theorem readDeclaration_none {w : Window}
    (h : Grammar.full.startsStmt w.kind = true ∨ w.kind = kwVoid ∨ w.kind = kwExternal) :
    w.readDeclaration? .full steps = none := by
  have hkind := not_opensDeclaration h
  unfold readDeclaration?
  split <;> simp_all [opensDeclaration, opensScalar]

end Window
end SlotLang
