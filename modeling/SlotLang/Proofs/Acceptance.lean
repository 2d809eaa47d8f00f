import SlotLang.Proofs.Gating
import SlotLang.Proofs.StatementGrammar

/-!
# Programs are accepted exactly if they derive from the grammar

The readers of procedures, external declarations and programs are sound and complete.  So a program
is read without gaps if and only if it derives from the grammar.  Since a reporter at distance zero
lets every fault surface, this is also told by what it records.
-/

namespace SlotLang

open TokenKind

namespace Window

variable {n steps : Nat}

/-! ## Programs without gaps -/

theorem sound_readParam : Sound Param.gaps .param readParam := by
  intro w u h hgaps
  simp only [readParam, Param.gaps, List.append_eq_nil_iff] at hgaps ⊢
  obtain ⟨v, hv, hty⟩ := sound_readScalarSpec w u h hgaps.1
  obtain ⟨r, rfl, hr⟩ := expect_passes hv (by decide) hgaps.2
  exact ⟨r, hr, spans_param.mpr hty⟩

structure SoundBodies (g : Grammar) (steps : Nat) : Prop where
  procedure : SoundAt .kwVoid Procedure.gaps (.rule .procedure) (readProcedure g steps)
  body : Sound bodyGaps (.repetition .bodyItem) (readBodyItems g steps)

theorem soundBodies (g : Grammar) (steps : Nat) : SoundBodies g steps := by
  induction steps with
  | zero =>
    constructor
    · intro w u _ _ hgaps
      simp [readProcedure, Procedure.gaps, Terminal.gaps] at hgaps
    · intro w u h _
      exact ⟨u, h, .stop _ u⟩
  | succ steps ih =>
    constructor
    · intro w u hkind h hgaps
      obtain ⟨v, rfl, hv⟩ := h.passes hkind (by decide)
      simp only [readProcedure, Procedure.gaps, List.append_eq_nil_iff] at hgaps ⊢
      obtain ⟨v₁, rfl, h₁⟩ := expect_passes hv (by decide) hgaps.1
      obtain ⟨v₂, rfl, h₂⟩ := expect_passes h₁ (by decide) hgaps.2.1
      obtain ⟨v₃, h₃, hparams⟩ := sound_separatedUnlessClosed sound_readParam steps _ v₂ h₂
        hgaps.2.2.1
      obtain ⟨v₄, rfl, h₄⟩ := expect_passes h₃ (by decide) hgaps.2.2.2.1
      obtain ⟨v₅, rfl, h₅⟩ := expect_passes h₄ (by decide) hgaps.2.2.2.2.1
      obtain ⟨v₆, h₆, hbody⟩ := ih.body _ v₅ h₅ hgaps.2.2.2.2.2.1
      obtain ⟨r, rfl, hr⟩ := expect_passes h₆ (by decide) hgaps.2.2.2.2.2.2
      exact ⟨r, hr, spans_procedure.mpr ⟨v₂, v₅, rfl, hparams, hbody⟩⟩
    · intro w u h hgaps
      unfold readBodyItems at hgaps ⊢
      split
      next => exact ⟨u, h, .stop _ u⟩
      next hend =>
        rw [if_neg hend] at hgaps
        split
        next d w' heq =>
          simp only [heq, bodyGaps, BodyItem.gaps, List.append_eq_nil_iff] at hgaps
          obtain ⟨m, hm, hfirst⟩ := readDeclaration_passes heq h hgaps.1
          obtain ⟨r, hr, hmore⟩ := ih.body _ m hm hgaps.2
          exact ⟨r, hr, .again (spans_bodyItem.mpr (.inl hfirst)) hmore⟩
        next hnone =>
          rw [hnone] at hgaps
          split
          next hvoid =>
            simp only [hvoid, if_true, bodyGaps, BodyItem.gaps,
              List.append_eq_nil_iff] at hgaps
            obtain ⟨m, hm, hfirst⟩ := ih.procedure w u hvoid h hgaps.1
            obtain ⟨r, hr, hmore⟩ := ih.body _ m hm hgaps.2
            exact ⟨r, hr, .again (spans_bodyItem.mpr (.inr (.inl hfirst))) hmore⟩
          next hvoid =>
            rw [if_neg hvoid] at hgaps
            split
            next hstart =>
              simp only [hstart, if_true, bodyGaps, BodyItem.gaps,
                List.append_eq_nil_iff] at hgaps
              obtain ⟨m, hm, hfirst⟩ := (soundStmts g steps).stmt w u h hgaps.1
              obtain ⟨r, hr, hmore⟩ := ih.body _ m hm hgaps.2
              exact ⟨r, hr, .again (spans_bodyItem.mpr (.inr (.inr hfirst))) hmore⟩
            next hstart => simp [hstart, bodyGaps, BodyItem.gaps] at hgaps

theorem readExternalParams_passes {steps : Nat} {w : Window} {u : List TokenKind} (h : w.Shows u)
    (hgaps : ((w.readExternalParams? steps).1.map ExternalParams.gaps).getD [] = []) :
    ∃ r, (w.readExternalParams? steps).2.Shows r ∧ Spans Phrase.externalParams.optional u r := by
  unfold readExternalParams? at hgaps ⊢
  split
  next hkind =>
    simp only [hkind, if_true, Option.map_some, Option.getD_some, ExternalParams.gaps,
      List.append_eq_nil_iff] at hgaps
    obtain ⟨v, rfl, hv⟩ := h.passes hkind (by decide)
    obtain ⟨v₁, h₁, htypes⟩ := sound_separatedUnlessClosed sound_readScalarSpec steps _ v hv hgaps.1
    obtain ⟨r, rfl, hr⟩ := expect_passes h₁ (by decide) hgaps.2
    exact ⟨r, hr, spans_optional.mpr (.inl (spans_externalParams.mpr ⟨v, rfl, htypes⟩))⟩
  next => exact ⟨u, h, spans_optional.mpr (.inr rfl)⟩

theorem externalNames_passes {steps : Nat} {w : Window} {u : List TokenKind} (h : w.Shows u) :
    let ty := w.readScalarSpec
    let names := ty.2.separated (fun w => w.expect .identifier) steps
    let semicolon := names.2.expect .semicolon
    ty.1.gaps = [] ∧ names.1.gaps Terminal.gaps = [] ∧ semicolon.1.gaps = [] →
      ∃ r, semicolon.2.Shows r ∧ ∃ m, Spans (.rule .scalar) u m ∧
        Spans (Phrase.token .identifier).commaList m (.semicolon :: r) := by
  intro ty names semicolon hgaps
  obtain ⟨m, hm, hty⟩ := sound_readScalarSpec w u h hgaps.1
  obtain ⟨v, hv, hnames⟩ := sound_separated (sound_expect (by decide)) steps _ m hm hgaps.2.1
  obtain ⟨r, rfl, hr⟩ := expect_passes hv (by decide) hgaps.2.2
  exact ⟨r, hr, m, hty, hnames⟩

theorem soundAt_readExternal (steps : Nat) :
    SoundAt .kwExternal External.gaps (.rule .external) (readExternal steps) := by
  intro w u hkind h hgaps
  obtain ⟨v, rfl, hv⟩ := h.passes hkind (by decide)
  unfold readExternal at hgaps ⊢
  dsimp only at hgaps ⊢
  split
  next hfirst =>
    simp only [hfirst, External.gaps, List.append_eq_nil_iff] at hgaps
    obtain ⟨r, hr, m, hty, hnames⟩ := externalNames_passes hv hgaps
    exact ⟨r, hr, spans_external.mpr (.inl ⟨v, m, rfl, hty, hnames⟩)⟩
  next hfirst =>
    simp only [hfirst, External.gaps, List.append_eq_nil_iff] at hgaps
    obtain ⟨r, hr, m, hty, hnames⟩ := externalNames_passes hv hgaps
    exact ⟨r, hr, spans_external.mpr (.inl ⟨v, m, rfl, hty, hnames⟩)⟩
  next hfirst =>
    simp only [hfirst, External.gaps, List.append_eq_nil_iff] at hgaps
    obtain ⟨v₁, rfl, h₁⟩ := hv.passes hfirst (by decide)
    obtain ⟨v₂, h₂, hty⟩ := sound_readScalarSpec _ v₁ h₁ hgaps.1
    obtain ⟨v₃, rfl, h₃⟩ := expect_passes h₂ (by decide) hgaps.2.1
    obtain ⟨r, rfl, hr⟩ := expect_passes h₃ (by decide) hgaps.2.2
    exact ⟨r, hr, spans_external.mpr (.inr (.inl ⟨v₁, rfl, hty⟩))⟩
  next hfirst =>
    simp only [hfirst] at hgaps
    obtain ⟨v₁, rfl, h₁⟩ := hv.passes hfirst (by decide)
    split
    next heq => simp [heq, External.gaps, Terminal.gaps] at hgaps
    next heq =>
      simp only [heq, External.gaps, Terminal.gaps, List.nil_append,
        List.append_eq_nil_iff] at hgaps
      obtain ⟨v₂, rfl, h₂⟩ := expect_read heq h₁ (by decide)
      obtain ⟨v₃, h₃, hparams⟩ := readExternalParams_passes h₂ hgaps.1
      obtain ⟨r, rfl, hr⟩ := expect_passes h₃ (by decide) hgaps.2
      exact ⟨r, hr, spans_external.mpr (.inr (.inr ⟨v₂, rfl, hparams⟩))⟩
  next hint hbool hconst hprocedure =>
    split at hgaps
    · contradiction
    · contradiction
    · contradiction
    · contradiction
    · simp [External.gaps] at hgaps

theorem sound_readProgramItems (g : Grammar) (steps : Nat) :
    Sound (fun items => items.flatMap ProgramItem.gaps) (.repetition .programItem)
      (readProgramItems g steps) := by
  induction steps with
  | zero =>
    intro w u h _
    exact ⟨u, h, .stop _ u⟩
  | succ steps ih =>
    intro w u h hgaps
    unfold readProgramItems at hgaps ⊢
    split
    next => exact ⟨u, h, .stop _ u⟩
    next hend =>
      rw [if_neg hend] at hgaps
      split
      next d w' heq =>
        simp only [heq, List.flatMap_cons, ProgramItem.gaps, List.append_eq_nil_iff] at hgaps
        obtain ⟨m, hm, hfirst⟩ := readDeclaration_passes heq h hgaps.1
        obtain ⟨r, hr, hmore⟩ := ih _ m hm hgaps.2
        exact ⟨r, hr, .again (spans_programItem.mpr (.inl hfirst)) hmore⟩
      next hnone =>
        rw [hnone] at hgaps
        split
        next hvoid =>
          simp only [hvoid, if_true, List.flatMap_cons, ProgramItem.gaps,
            List.append_eq_nil_iff] at hgaps
          obtain ⟨m, hm, hfirst⟩ := (soundBodies g steps).procedure w u hvoid h hgaps.1
          obtain ⟨r, hr, hmore⟩ := ih _ m hm hgaps.2
          exact ⟨r, hr, .again (spans_programItem.mpr (.inr (.inl hfirst))) hmore⟩
        next hvoid =>
          rw [if_neg hvoid] at hgaps
          split
          next hexternal =>
            simp only [hexternal, if_true, List.flatMap_cons, ProgramItem.gaps,
              List.append_eq_nil_iff] at hgaps
            obtain ⟨m, hm, hfirst⟩ := soundAt_readExternal steps w u hexternal h hgaps.1
            obtain ⟨r, hr, hmore⟩ := ih _ m hm hgaps.2
            exact ⟨r, hr, .again (spans_programItem.mpr (.inr (.inr hfirst))) hmore⟩
          next hexternal => simp [hexternal, ProgramItem.gaps] at hgaps

/-- A program without gaps derives from the grammar, down to the end token. -/
theorem derives_of_readProgram {g : Grammar} {steps : Nat} {w : Window} {u : List TokenKind}
    (h : w.Shows u) (hgaps : (w.readProgram g steps).1.gaps = []) :
    Derives (.rule .program) u := by
  simp only [readProgram, Program.gaps, List.append_eq_nil_iff] at hgaps
  obtain ⟨v₁, rfl, h₁⟩ := expect_passes h (by decide) hgaps.1
  obtain ⟨v₂, rfl, h₂⟩ := expect_passes h₁ (by decide) hgaps.2.1
  obtain ⟨v₃, rfl, h₃⟩ := expect_passes h₂ (by decide) hgaps.2.2.1
  obtain ⟨v₄, h₄, hitems⟩ := sound_readProgramItems g steps _ v₃ h₃ hgaps.2.2.2.1
  obtain ⟨v₅, rfl, h₅⟩ := expect_passes h₄ (by decide) hgaps.2.2.2.2.1
  have hkind := kind_of_expect hgaps.2.2.2.2.2
  rw [h₅.eq_of_eof hkind] at hitems
  exact derives_iff_spans.mpr (spans_program.mpr ⟨v₃, rfl, hitems⟩)

/-! ## Programs that derive from the grammar -/

theorem complete_readParam : Complete Param.gaps .param Anything n readParam := by
  intro w u r hlen h hspans _
  obtain ⟨g₁, h₁⟩ := complete_readScalarSpec w u _ hlen h (spans_param.mp hspans) trivial
  obtain ⟨g₂, h₂⟩ := h₁.expect (by decide)
  simp only [readParam, Param.gaps, List.append_eq_nil_iff]
  exact ⟨⟨g₁, g₂⟩, h₂⟩

theorem opens_scalar_inside : Opens (· != .closeParen) (.rule .scalar) := by
  apply opens_scalar.imp
  intro k
  cases k <;> simp [opensScalar]

theorem opens_param : Opens (· != .closeParen) .param := .sequence opens_scalar_inside

structure CompleteBodies (n : Nat) : Prop where
  procedure : ∀ steps, 3 * n ≤ steps →
    Complete Procedure.gaps (.rule .procedure) Anything n (readProcedure .full steps)
  body : ∀ steps, 3 * n + 1 ≤ steps →
    Complete bodyGaps (.repetition .bodyItem) (Next (· == .closeCurly)) n
      (readBodyItems .full steps)

theorem completeBodies (n : Nat) : CompleteBodies n := by
  induction n with
  | zero => exact ⟨fun steps _ => complete_zero, fun steps _ => complete_zero⟩
  | succ n ih =>
    have hprocedure : ∀ steps, 3 * (n + 1) ≤ steps →
        Complete Procedure.gaps (.rule .procedure) Anything (n + 1)
          (readProcedure .full steps) := by
      intro steps hsteps w u r hlen h hspans _
      obtain ⟨steps, rfl⟩ : ∃ m, steps = m + 1 := ⟨steps - 1, by omega⟩
      have hle : n ≤ steps := by omega
      obtain ⟨l, m, rfl, hparams, hbody⟩ := spans_procedure.mp hspans
      have hparam : Complete Param.gaps .param (Next fun _ => true) n readParam :=
        complete_readParam.imp fun _ _ => trivial
      obtain ⟨g₁, h₁⟩ := (h.advance (by decide)).expect (by decide)
      obtain ⟨g₂, h₂⟩ := h₁.expect (by decide)
      obtain ⟨g₃, h₃⟩ := complete_separatedUnlessClosed hparam opens_param rfl rfl hle _ l _
        (by grind) h₂ hparams rfl
      obtain ⟨g₄, h₄⟩ := h₃.expect (by decide)
      obtain ⟨g₅, h₅⟩ := h₄.expect (by decide)
      obtain ⟨g₆, h₆⟩ := ih.body steps (by omega) _ m _ (by grind) h₅ hbody rfl
      obtain ⟨g₇, h₇⟩ := h₆.expect (by decide)
      simp only [readProcedure, Procedure.gaps, List.append_eq_nil_iff]
      exact ⟨⟨g₁, g₂, g₃, g₄, g₅, g₆, g₇⟩, h₇⟩
    constructor
    · exact hprocedure
    · intro steps hsteps w u r hlen h hspans hr
      obtain ⟨steps, rfl⟩ : ∃ m, steps = m + 1 := ⟨steps - 1, by omega⟩
      unfold readBodyItems
      rcases spans_repetition.mp hspans with rfl | ⟨m, hfirst, hmore⟩
      · rw [if_pos (atListEnd_of_next h hr)]
        exact ⟨rfl, h⟩
      · obtain ⟨hnext, hlt⟩ := opens_bodyItem u m hfirst
        have hdeclarations : 2 * (n + 1) ≤ steps := by omega
        rw [if_neg (not_atListEnd h hnext)]
        rcases spans_bodyItem.mp hfirst with ⟨rule, hmem, hrule⟩ | hnested | hstatement
        · obtain ⟨d, w', heq, g₁, h₁⟩ := readDeclaration_complete hdeclarations hlen h hmem hrule
          obtain ⟨g₂, h₂⟩ := ih.body steps (by omega) _ m r (by omega) h₁ hmore hr
          simp only [heq, bodyGaps, BodyItem.gaps, List.append_eq_nil_iff]
          exact ⟨⟨g₁, g₂⟩, h₂⟩
        · have hvoid := h.next (opens_procedure u m hnested).1
          rw [beq_iff_eq] at hvoid
          obtain ⟨g₁, h₁⟩ := hprocedure steps (by omega) w u m hlen h hnested trivial
          obtain ⟨g₂, h₂⟩ := ih.body steps (by omega) _ m r (by omega) h₁ hmore hr
          simp only [readDeclaration_none (.inr (.inl hvoid)), if_pos hvoid, bodyGaps,
            BodyItem.gaps, List.append_eq_nil_iff]
          exact ⟨⟨g₁, g₂⟩, h₂⟩
        · have hstart := h.next (opens_statement u m hstatement).1
          have hvoid : w.kind ≠ .kwVoid := by
            intro heq
            rw [heq] at hstart
            contradiction
          obtain ⟨g₁, h₁⟩ := (completeStmts (n + 1)).stmt steps (by omega) u m hlen hstatement
            (next_items opens_bodyItem hmore hr) w h
          obtain ⟨g₂, h₂⟩ := ih.body steps (by omega) _ m r (by omega) h₁ hmore hr
          simp only [readDeclaration_none (.inl hstart), if_neg hvoid, if_pos hstart, bodyGaps,
            BodyItem.gaps, List.append_eq_nil_iff]
          exact ⟨⟨g₁, g₂⟩, h₂⟩

theorem readExternalParams_complete (hsteps : n ≤ steps) {w : Window} {u r : List TokenKind}
    (hlen : u.length ≤ n) (h : w.Shows u)
    (hspans : Spans Phrase.externalParams.optional u (.semicolon :: r)) :
    ((w.readExternalParams? steps).1.map ExternalParams.gaps).getD [] = [] ∧
      (w.readExternalParams? steps).2.Shows (.semicolon :: r) := by
  have htype : Complete ScalarSpec.gaps (.rule .scalar) (Next fun _ => true) n readScalarSpec :=
    complete_readScalarSpec.imp fun _ _ => trivial
  unfold readExternalParams?
  rcases spans_optional.mp hspans with hpresent | rfl
  · obtain ⟨m, rfl, htypes⟩ := spans_externalParams.mp hpresent
    obtain ⟨g₁, h₁⟩ := complete_separatedUnlessClosed htype opens_scalar_inside rfl rfl hsteps _ m
      _ (by grind) (h.advance (by decide)) htypes rfl
    obtain ⟨g₂, h₂⟩ := h₁.expect (by decide)
    simp only [if_pos h.kind_eq, Option.map_some, Option.getD_some, ExternalParams.gaps,
      List.append_eq_nil_iff]
    exact ⟨⟨g₁, g₂⟩, h₂⟩
  · simp only [h.kind_eq, reduceCtorEq, if_false]
    exact ⟨rfl, h⟩

theorem complete_readExternal (hsteps : n ≤ steps) :
    Complete External.gaps (.rule .external) Anything n (readExternal steps) := by
  have hname : Complete Terminal.gaps (.token .identifier) (Next fun _ => true) n
      fun w => w.expect .identifier := by
    intro w u r hlen h hspans _
    rw [spans_token.mp hspans] at h
    exact h.expect (by decide)
  have hscalar : Complete ScalarSpec.gaps (.rule .scalar) Anything n readScalarSpec :=
    complete_readScalarSpec
  intro w u r hlen h hspans _
  unfold readExternal
  rcases spans_external.mp hspans with ⟨l, m, rfl, htype, hnames⟩ | ⟨m, rfl, htype⟩ |
    ⟨m, rfl, hparams⟩
  · have hu := h.advance (by decide)
    obtain ⟨g₁, h₁⟩ := hscalar _ l m (by grind) hu htype trivial
    obtain ⟨g₂, h₂⟩ := complete_separated hname rfl hsteps _ m _ (by grind) h₁ hnames rfl
    obtain ⟨g₃, h₃⟩ := h₂.expect (by decide)
    have hkind : w.advance.kind = .kwInt ∨ w.advance.kind = .kwBool := by
      simpa [opensScalar] using hu.next (opens_scalar l m htype).1
    rcases hkind with hkind | hkind
    all_goals
      simp only [hkind, External.gaps, List.append_eq_nil_iff]
      exact ⟨⟨g₁, g₂, g₃⟩, h₃⟩
  · have hu := h.advance (by decide)
    obtain ⟨g₁, h₁⟩ := hscalar _ m _ (by grind) (hu.advance (by decide)) htype trivial
    obtain ⟨g₂, h₂⟩ := h₁.expect (by decide)
    obtain ⟨g₃, h₃⟩ := h₂.expect (by decide)
    simp only [hu.kind_eq, External.gaps, List.append_eq_nil_iff]
    exact ⟨⟨g₁, g₂, g₃⟩, h₃⟩
  · have hu := h.advance (by decide)
    have hmark := hu.advance (by decide)
    obtain ⟨g₁, h₁⟩ := readExternalParams_complete hsteps (by grind) (hmark.advance (by decide))
      hparams
    obtain ⟨g₂, h₂⟩ := h₁.expect (by decide)
    simp only [hu.kind_eq, hmark.expect_eq, External.gaps, Terminal.gaps, List.nil_append,
      List.append_eq_nil_iff]
    exact ⟨⟨g₁, g₂⟩, h₂⟩

theorem complete_readProgramItems (hsteps : 3 * n + 1 ≤ steps) :
    Complete (fun items => items.flatMap ProgramItem.gaps) (.repetition .programItem)
      (Next (· == .closeCurly)) n (readProgramItems .full steps) := by
  induction n generalizing steps with
  | zero => exact complete_zero
  | succ n ih =>
    obtain ⟨steps, rfl⟩ : ∃ m, steps = m + 1 := ⟨steps - 1, by omega⟩
    have ih := ih (show 3 * n + 1 ≤ steps by omega)
    intro w u r hlen h hspans hr
    unfold readProgramItems
    rcases spans_repetition.mp hspans with rfl | ⟨m, hfirst, hmore⟩
    · rw [if_pos (atListEnd_of_next h hr)]
      exact ⟨rfl, h⟩
    · obtain ⟨hnext, hlt⟩ := opens_programItem u m hfirst
      have hdeclarations : 2 * (n + 1) ≤ steps := by omega
      have hexternals : n + 1 ≤ steps := by omega
      rw [if_neg (not_atListEnd h hnext)]
      rcases spans_programItem.mp hfirst with ⟨rule, hmem, hrule⟩ | hprocedure | hexternal
      · obtain ⟨d, w', heq, g₁, h₁⟩ := readDeclaration_complete hdeclarations hlen h hmem hrule
        obtain ⟨g₂, h₂⟩ := ih _ m r (by omega) h₁ hmore hr
        simp only [heq, List.flatMap_cons, ProgramItem.gaps, List.append_eq_nil_iff]
        exact ⟨⟨g₁, g₂⟩, h₂⟩
      · have hvoid := h.next (opens_procedure u m hprocedure).1
        rw [beq_iff_eq] at hvoid
        obtain ⟨g₁, h₁⟩ := (completeBodies (n + 1)).procedure steps (by omega) w u m hlen h
          hprocedure trivial
        obtain ⟨g₂, h₂⟩ := ih _ m r (by omega) h₁ hmore hr
        simp only [readDeclaration_none (.inr (.inl hvoid)), if_pos hvoid, List.flatMap_cons,
          ProgramItem.gaps, List.append_eq_nil_iff]
        exact ⟨⟨g₁, g₂⟩, h₂⟩
      · have hkind := h.next (opens_external u m hexternal).1
        rw [beq_iff_eq] at hkind
        have hvoid : w.kind ≠ .kwVoid := by simp [hkind]
        obtain ⟨g₁, h₁⟩ := complete_readExternal hexternals w u m hlen h hexternal trivial
        obtain ⟨g₂, h₂⟩ := ih _ m r (by omega) h₁ hmore hr
        simp only [readDeclaration_none (.inr (.inr hkind)), if_neg hvoid, if_pos hkind,
          List.flatMap_cons, ProgramItem.gaps, List.append_eq_nil_iff]
        exact ⟨⟨g₁, g₂⟩, h₂⟩

theorem gaps_readProgram {w : Window} {u : List TokenKind} (h : w.Shows u)
    (hsteps : 3 * u.length + 1 ≤ steps) (hderives : Derives (.rule .program) u) :
    (w.readProgram .full steps).1.gaps = [] := by
  obtain ⟨m, rfl, hitems⟩ := spans_program.mp (derives_iff_spans.mp hderives)
  obtain ⟨g₁, h₁⟩ := h.expect (by decide)
  obtain ⟨g₂, h₂⟩ := h₁.expect (by decide)
  obtain ⟨g₃, h₃⟩ := h₂.expect (by decide)
  obtain ⟨g₄, h₄⟩ := complete_readProgramItems hsteps _ m _ (by grind) h₃ hitems rfl
  obtain ⟨g₅, h₅⟩ := h₄.expect (by decide)
  simp only [readProgram, Program.gaps, h₅.expect_eq, List.append_eq_nil_iff]
  exact ⟨g₁, g₂, g₃, g₄, g₅, rfl⟩

end Window

/-! ## What is recorded -/

theorem FaultClass.name_eq_iff {c : FaultClass} : c.name = "Syntax" ↔ c = .syntaxFault := by
  cases c <;> simp [FaultClass.name]

/-- A fault of grammar is recorded as one, and nothing else is. -/
theorem Event.gap_eq_none_iff {event : Event} :
    event.gap? = none ↔ ∀ d, event.diagnostic? = some d → d.severity ≠ "Syntax" := by
  cases event with
  | consumed => simp [Event.gap?, Event.diagnostic?]
  | warning message position => simp [Event.gap?, Event.diagnostic?, Diagnostic.severity]
  | fault e => simp [Event.gap?, Event.diagnostic?, Diagnostic.severity, FaultClass.name_eq_iff]

/-- The tree lacks nothing if and only if no fault of grammar is recorded. -/
theorem silent_iff_gaps (w : Window) :
    (∀ d ∈ (compileWindow w 0).diagnostics, d.severity ≠ "Syntax") ↔
      (w.readProgram .full w.budget).1.gaps = [] := by
  have hreports : w.outcome.events.filterMap Event.gap? =
      (w.readProgram .full w.budget).1.gaps := Program.lower_reports _ _
  have hrecorded : (compileWindow w 0).diagnostics =
      w.outcome.events.filterMap Event.diagnostic? := by
    simp only [compileWindow_eq, Reporter.diagnostics_hearAll_new]
  rw [← hreports, hrecorded, List.filterMap_eq_nil_iff]
  constructor
  · intro h event hmem
    rw [Event.gap_eq_none_iff]
    intro d hd
    exact h d (List.mem_filterMap.mpr ⟨event, hmem, hd⟩)
  · intro h d hmem
    obtain ⟨event, hevent, hd⟩ := List.mem_filterMap.mp hmem
    exact Event.gap_eq_none_iff.mp (h event hevent) d hd

theorem length_sentence_le (tokens : List Token) : (sentence tokens).length ≤ tokens.length + 1 := by
  have hle := (List.takeWhile_sublist (fun k : TokenKind => decide (k ≠ .eof))
    (l := tokens.map (·.kind))).length_le
  simpa [sentence] using hle

/-- No fault of grammar is recorded for a list of tokens if and only if its kinds, up to the first end
token, derive from the grammar. -/
theorem accepts_iff_derives (tokens : List Token) (file : String) :
    (∀ d ∈ (compileTokens tokens file 0).diagnostics, d.severity ≠ "Syntax") ↔
      Derives (.rule .program) (sentence tokens) := by
  have hshows := Window.shows_ofTokens tokens file
  have hbudget : 3 * (sentence tokens).length + 1 ≤ (Window.ofTokens tokens file).budget := by
    have hle := length_sentence_le tokens
    simp only [Window.budget, Window.size, Window.ofTokens]
    omega
  rw [compileTokens, silent_iff_gaps]
  constructor
  · exact Window.derives_of_readProgram hshows
  · exact Window.gaps_readProgram hshows hbudget

end SlotLang
