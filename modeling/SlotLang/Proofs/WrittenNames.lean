import SlotLang.Proofs.Definitions
import SlotLang.Proofs.Stages

/-!
# The names in a text

What a text declares has words for names, since it was read from identifiers: this holds of the
variables, of the members of structs and, except where a name is missing, of the procedures.  The
bounds of arrays fit into a machine word, since a bound that does not fit counts as zero.
-/

namespace SlotLang

open Aggregate

theorem Index.bounds_lt (i : Index) : ∀ bound ∈ i.bounds, bound < Text.wordBound := by
  unfold Index.bounds
  cases i.number.value? with
  | none => simp
  | some numeral =>
    intro bound hbound
    obtain rfl := List.mem_singleton.mp hbound
    cases hword : Text.word? numeral with
    | none => decide
    | some n => exact Text.lt_of_word hword

theorem component_proper {name : String} (hname : IsWord name) (ty : DeclaredTy)
    (indices : List Index) : (⟨name, ty, indices.flatMap Index.bounds⟩ : Component).Proper where
  name := hname
  bounds := by
    intro bound hbound
    obtain ⟨i, -, hbound⟩ := List.mem_flatMap.mp hbound
    exact i.bounds_lt bound hbound

/-- What the landmark declares has proper names and bounds, and no struct is external. -/
def Landmark.Proper : Landmark → Prop
  | .declare c => c.Proper
  | .define layout => ∀ c ∈ layout.components, c.Proper
  | .enter name => IsProcedureName name
  | .external _ kind _ => kind ≠ .struct
  | _ => True

/-- All landmarks of the list are proper. -/
def AllProper (landmarks : List Landmark) : Prop := ∀ l ∈ landmarks, l.Proper

theorem allProper_nil : AllProper [] := by simp [AllProper]

theorem AllProper.append {first second : List Landmark} (hfirst : AllProper first)
    (hsecond : AllProper second) : AllProper (first ++ second) :=
  List.forall_mem_append.mpr ⟨hfirst, hsecond⟩

theorem AllProper.cons {l : Landmark} (hl : l.Proper) {more : List Landmark}
    (hmore : AllProper more) : AllProper (l :: more) :=
  List.forall_mem_cons.mpr ⟨hl, hmore⟩

theorem AllProper.flatMap {α : Type} {f : α → List Landmark} {items : List α}
    (h : ∀ a ∈ items, AllProper (f a)) : AllProper (items.flatMap f) := by
  intro l hl
  obtain ⟨a, ha, hl⟩ := List.mem_flatMap.mp hl
  exact h a ha l hl

theorem allProper_refer (references : List Reference) : AllProper (references.map .refer) := by
  intro l hl
  obtain ⟨r, -, rfl⟩ := List.mem_map.mp hl
  trivial

namespace Window

variable {g : Grammar} {w : Window}

theorem expect_identifier_isWord (h : w.Names IsWord) {name : String}
    (hread : (w.expect .identifier).1.value? = some name) : IsWord name := by
  unfold expect at hread
  split at hread
  next hkind =>
    cases hread
    exact h w.ahead w.ahead_mem hkind
  next => cases hread

/-- A property of everything that is read from words holds of all items of a list. -/
theorem separated_all {α : Type} {item : Window → α × Window} {Q : α → Prop}
    (hforward : Forward item) (hitem : ∀ w : Window, w.Names IsWord → Q (item w).1) (steps : Nat)
    {w : Window} (h : w.Names IsWord) : ∀ a ∈ (separated item steps w).1.toList, Q a := by
  have hmore : ∀ (steps : Nat) (w : Window), w.Names IsWord →
      ∀ pair ∈ (moreItems item steps w).1, Q pair.2 := by
    intro steps
    induction steps with
    | zero => simp [moreItems]
    | succ steps ih =>
      intro w h
      unfold moreItems
      split
      · have hitems := h.later w.later_advance
        exact List.forall_mem_cons.mpr ⟨hitem _ hitems, ih _ (hitems.later (hforward _))⟩
      · simp
  refine List.forall_mem_cons.mpr ⟨hitem w h, List.forall_mem_map.mpr ?_⟩
  exact hmore steps _ (h.later (hforward w))

/-! ## Declarations -/

theorem readDeclarator_proper (steps : Nat) (ty : DeclaredTy) (w : Window) (h : w.Names IsWord) :
    AllProper ((w.readDeclarator steps).1.landmarks ty) := by
  have hname := @expect_identifier_isWord w h
  unfold readDeclarator
  split
  next => exact allProper_nil
  next name w₁ heq =>
    refine .cons ?_ allProper_nil
    exact component_proper (hname (by rw [heq]; rfl)) ty _

theorem readDeclarators_proper (steps : Nat) (spec : TypeSpec) (h : w.Names IsWord) :
    AllProper (w.readDeclarators steps spec).1.landmarks :=
  .flatMap (separated_all (forward_readDeclarator steps) (readDeclarator_proper steps _) steps h)

theorem allProper_constEntry (entry : ConstEntry) : AllProper entry.landmarks := by
  unfold ConstEntry.landmarks
  split
  · refine .cons ?_ (allProper_refer _)
    trivial
  · exact allProper_nil

theorem readStructItems_proper (steps : Nat) {w : Window} (h : w.Names IsWord) :
    ∀ c ∈ (w.readStructItems steps).1.filterMap StructItem.added?, c.Proper := by
  induction steps generalizing w with
  | zero => simp [readStructItems]
  | succ steps ih =>
    unfold readStructItems
    split
    · simp
    · split
      · have htype := h.later (forward_readTypeSpec w)
        have hlater := htype.later ((later_expect _ .identifier).trans
          ((forward_readIndices steps _).trans (later_expect _ .semicolon)))
        intro c hc
        obtain ⟨item, hitem, hadded⟩ := List.mem_filterMap.mp hc
        rcases List.mem_cons.mp hitem with rfl | hitem
        · obtain ⟨name, hname, rfl⟩ := Option.map_eq_some_iff.mp hadded
          exact component_proper (expect_identifier_isWord htype hname) _ _
        · exact ih hlater c (List.mem_filterMap.mpr ⟨item, hitem, hadded⟩)
      · intro c hc
        obtain ⟨item, hitem, hadded⟩ := List.mem_filterMap.mp hc
        rcases List.mem_cons.mp hitem with rfl | hitem
        · cases hadded
        · exact ih (h.later w.later_advance) c (List.mem_filterMap.mpr ⟨item, hitem, hadded⟩)

theorem readDeclaration?_proper {steps : Nat} {w' : Window} {d : Declaration} (h : w.Names IsWord)
    (hread : w.readDeclaration? g steps = some (d, w')) : AllProper d.landmarks := by
  have hfst : ∀ {read : Declaration × Window}, some read = some (d, w') → d = read.1 := by
    intro read hread
    rw [Option.some.inj hread]
  unfold readDeclaration? at hread
  split at hread
  · rw [hfst hread]
    exact .flatMap fun entry _ => allProper_constEntry entry
  · rw [hfst hread]
    exact readDeclarators_proper steps _ (h.later (forward_readTypeSpec w))
  · rw [hfst hread]
    exact readDeclarators_proper steps _ (h.later (forward_readTypeSpec w))
  · rw [hfst hread]
    have hname := h.later (w.later_advance.trans (later_expect w.advance .identifier))
    simp only [readStruct]
    split
    · refine .cons ?_ allProper_nil
      exact readStructItems_proper steps (hname.later (later_expect _ _))
    · exact readDeclarators_proper steps _ hname
  · simp at hread

/-! ## Statements -/

/-- The readers of statements, for one number of steps. -/
structure ProperStmts (g : Grammar) (steps : Nat) : Prop where
  stmt : ∀ w : Window, w.Names IsWord → AllProper (readStmt g steps w).1.landmarks
  form : ∀ (form : StmtForm) (w : Window), w.Names IsWord →
    AllProper (readStmtForm g steps form w).1.landmarks
  stmts : ∀ w : Window, w.Names IsWord → AllProper (stmtsLandmarks (readStmts g steps w).1)
  cases : ∀ w : Window, w.Names IsWord → AllProper (casesLandmarks (readCases g steps w).1)
  block : ∀ w : Window, w.Names IsWord → AllProper (blockLandmarks (readBlockItems g steps w).1)

theorem readDesignatorStmt_proper (steps : Nat) (w : Window) :
    AllProper (w.readDesignatorStmt g steps).1.landmarks := by
  simp only [readDesignatorStmt]
  split
  · exact allProper_nil
  · split
    · simp only [readAssign]
      split <;> exact allProper_refer _
    · exact allProper_refer _
    · exact allProper_nil

theorem ProperStmts.readStmtForm {steps : Nat} (h : ProperStmts g steps) (form : StmtForm)
    {w : Window} (hnames : w.Names IsWord) :
    AllProper (Window.readStmtForm g (steps + 1) form w).1.landmarks := by
  have hforward := forwardStmts g steps
  have hnext := hnames.later w.later_advance
  simp only [Window.readStmtForm]
  cases form with
  | designator => exact readDesignatorStmt_proper steps w
  | branch =>
    have hcondition := hnext.later (forward_readCondition g steps w.advance)
    have hbody := h.stmt _ hcondition
    dsimp only
    split
    · refine .append (allProper_refer _) (.append hbody (h.stmt _ ?_))
      exact hcondition.later ((hforward.stmt _).trans (later_advance _))
    · exact .append (allProper_refer _) hbody
  | whileLoop =>
    exact .append (allProper_refer _) (h.stmt _ (hnext.later (forward_readCondition g steps _)))
  | forLoop =>
    refine .append (allProper_refer _) (h.stmt _ (hnext.later ?_))
    exact (later_expect _ _).trans ((forward_readAssignment g steps _).trans
      ((later_expect _ _).trans ((forward_readExpr g steps _ _).trans ((later_expect _ _).trans
        ((forward_readAssignment g steps _).trans (later_expect _ _))))))
  | switch =>
    have hbrace := hnext.later ((later_expect w.advance .openParen).trans
      ((forward_readExpr g steps .lowest _).trans ((later_expect _ .closeParen).trans
        (later_expect _ .openCurly))))
    have hcases := h.cases _ hbrace
    dsimp only
    split
    · refine .cons (by trivial)
        (.append (.append hcases (h.stmts _ ?_)) (.cons (by trivial) allProper_nil))
      exact hbrace.later ((hforward.cases _).trans ((later_advance _).trans (later_expect _ _)))
    · exact .cons (by trivial)
        (.append (.append hcases allProper_nil) (.cons (by trivial) allProper_nil))
  | read => exact allProper_refer _
  | write => exact allProper_refer _
  | block => exact h.block _ hnext

theorem properStmts (g : Grammar) (steps : Nat) : ProperStmts g steps := by
  induction steps with
  | zero =>
    exact ⟨fun _ _ => allProper_nil, fun _ _ _ => allProper_nil, fun _ _ => allProper_nil,
      fun _ _ => allProper_nil, fun _ _ => allProper_nil⟩
  | succ steps ih =>
    have hforward := forwardStmts g steps
    refine ⟨?_, fun form _ hnames => ih.readStmtForm form hnames, ?_, ?_, ?_⟩
    · intro w hnames
      unfold readStmt
      split
      · exact allProper_nil
      · exact ih.form _ w hnames
    · intro w hnames
      unfold readStmts
      split
      · exact .append (ih.stmt w hnames) (ih.stmts _ (hnames.later (hforward.stmt w)))
      · exact allProper_nil
    · intro w hnames
      unfold readCases
      split
      · have hbody := hnames.later (w.later_advance.trans
          ((forward_readExpr g steps .lowest w.advance).trans (later_expect _ .colon)))
        exact .append (.cons (by trivial) (.append (allProper_refer _) (ih.stmts _ hbody)))
          (ih.cases _ (hbody.later (hforward.stmts _)))
      · exact allProper_nil
    · intro w hnames
      unfold readBlockItems
      split
      · exact allProper_nil
      · split
        next hread =>
          exact .append (readDeclaration?_proper hnames hread)
            (ih.block _ (hnames.later (later_readDeclaration? hread)))
        next =>
          split
          · exact .append (ih.stmt w hnames) (ih.block _ (hnames.later (hforward.stmt w)))
          · exact ih.block _ (hnames.later w.later_advance)

/-! ## Procedures and programs -/

/-- The readers of procedures, for one number of steps. -/
structure ProperProcedures (g : Grammar) (steps : Nat) : Prop where
  procedure : ∀ w : Window, w.Names IsWord → AllProper (readProcedure g steps w).1.landmarks
  body : ∀ w : Window, w.Names IsWord → AllProper (bodyLandmarks (readBodyItems g steps w).1)

theorem procedure_proper {keyword : Token} {name opening : Terminal}
    {params : Option (Separated Param)} {closing brace : Terminal} {body : List BodyItem}
    {closingBrace : Terminal} (hname : IsProcedureName name.valueD)
    (hbody : AllProper (bodyLandmarks body)) :
    AllProper (Procedure.mk keyword name opening params closing brace body closingBrace).landmarks := by
  have hparams : AllProper ((Separated.toList? params).flatMap Param.landmarks) :=
    .flatMap fun p _ => by simp [AllProper, Param.landmarks, Landmark.Proper]
  have harguments (count : Nat) : AllProper (argumentLandmarks count) := by
    simp [AllProper, argumentLandmarks, Landmark.Proper]
  exact .cons (by exact hname) (.append (.append hparams (.append (harguments _) hbody))
    (.cons (by trivial) allProper_nil))

theorem properProcedures (g : Grammar) (steps : Nat) : ProperProcedures g steps := by
  induction steps with
  | zero => exact ⟨fun _ _ => procedure_proper (.inl rfl) allProper_nil, fun _ _ => allProper_nil⟩
  | succ steps ih =>
    have hforward : ForwardProcedures IsProcedureName g steps := forwardProcedures g (.inl rfl) steps
    refine ⟨?_, ?_⟩
    · intro w hnames
      have hprocedure : w.advance.Names IsProcedureName := fun t ht hkind =>
        .inr ((hnames.later w.later_advance) t ht hkind)
      refine procedure_proper (hprocedure.expect (.inl rfl)) (ih.body _ (hnames.later ?_))
      exact w.later_advance.trans ((later_expect _ _).trans ((later_expect _ _).trans
        ((forward_separatedUnlessClosed forward_readParam steps _).trans
          ((later_expect _ _).trans (later_expect _ _)))))
    · intro w hnames
      simp only [readBodyItems]
      split
      · exact allProper_nil
      · split
        next hread =>
          exact .append (readDeclaration?_proper hnames hread)
            (ih.body _ (hnames.later (later_readDeclaration? hread)))
        next =>
          split
          · exact .append (ih.procedure w hnames) (ih.body _ (hnames.later (hforward.procedure w)))
          · split
            · exact .append ((properStmts g steps).stmt w hnames)
                (ih.body _ (hnames.later ((forwardStmts g steps).stmt w)))
            · exact ih.body _ (hnames.later w.later_advance)

theorem allProper_external (e : External) : AllProper e.landmarks := by
  cases e with
  | vars keyword spec names semicolon =>
    exact .flatMap fun name _ => by simp [AllProper, externalLandmarks, Landmark.Proper]
  | const keyword constant spec name semicolon =>
    simp [AllProper, External.landmarks, externalLandmarks, Landmark.Proper]
  | procedure keyword mark name params semicolon =>
    simp [AllProper, External.landmarks, externalLandmarks, Landmark.Proper]
  | missing keyword next => exact allProper_nil

theorem readProgramItems_proper (g : Grammar) (steps : Nat) {w : Window} (hnames : w.Names IsWord) :
    AllProper ((readProgramItems g steps w).1.flatMap ProgramItem.landmarks) := by
  induction steps generalizing w with
  | zero => exact allProper_nil
  | succ steps ih =>
    have hforward : ForwardProcedures IsProcedureName g steps := forwardProcedures g (.inl rfl) steps
    simp only [readProgramItems]
    split
    · exact allProper_nil
    · split
      next hread =>
        exact .append (readDeclaration?_proper hnames hread)
          (ih (hnames.later (later_readDeclaration? hread)))
      next =>
        split
        · exact .append ((properProcedures g steps).procedure w hnames)
            (ih (hnames.later (hforward.procedure w)))
        · split
          · exact .append (allProper_external _) (ih (hnames.later (forward_readExternal steps w)))
          · exact ih (hnames.later w.later_advance)

end Window

/-- What a scanned text declares has proper names. -/
theorem scan_landmarks_proper {source file : String} {tokens : List Token}
    (h : scan source file = .ok tokens) (steps : Nat) :
    AllProper ((Window.ofTokens tokens file).readProgram .full steps).1.landmarks := by
  refine Window.readProgramItems_proper .full steps ((scan_names h).later ?_)
  exact (Window.later_expect _ .kwProgram).trans ((Window.later_expect _ .identifier).trans
    (Window.later_expect _ .openCurly))

end SlotLang
