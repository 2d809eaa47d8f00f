import SlotLang.Compile
import SlotLang.Proofs.Scanning

/-!
# What readers leave

Every reader of the grammar hands over a later window: it has passed some tokens and has made none
up.  So a property of all tokens of a text holds of every token that a reader takes, wherever in the
text it starts.  The last part uses this for the names of procedures.
-/

namespace SlotLang

namespace Window

/-- The second window shows a final part of what the first one shows. -/
structure Later (w w' : Window) : Prop where
  rest : w'.rest <:+ w.rest
  ending : w'.ending = w.ending

theorem Later.refl (w : Window) : w.Later w := ⟨List.suffix_rfl, rfl⟩

theorem Later.trans {w w₁ w₂ : Window} (h₁ : w.Later w₁) (h₂ : w₁.Later w₂) : w.Later w₂ :=
  ⟨h₂.rest.trans h₁.rest, h₂.ending.trans h₁.ending⟩

theorem later_advance (w : Window) : w.Later w.advance := ⟨List.tail_suffix _, rfl⟩

theorem later_expect (w : Window) (kind : TokenKind) : w.Later (w.expect kind).2 := by
  unfold expect
  split
  · exact w.later_advance
  · exact .refl w

/-- A reader from whose windows nothing but tokens is missing. -/
def Forward {α : Type} (read : Window → α × Window) : Prop :=
  ∀ w : Window, w.Later (read w).2

variable {α : Type}

theorem forward_expect (kind : TokenKind) : Forward fun w => w.expect kind :=
  fun w => w.later_expect kind

theorem forward_moreItems {item : Window → α × Window} (h : Forward item) (steps : Nat) :
    Forward (moreItems item steps) := by
  induction steps with
  | zero => exact Later.refl
  | succ steps ih =>
    intro w
    unfold moreItems
    split
    · exact w.later_advance.trans ((h _).trans (ih _))
    · exact .refl w

theorem forward_separated {item : Window → α × Window} (h : Forward item) (steps : Nat) :
    Forward (separated item steps) :=
  fun w => (h w).trans (forward_moreItems h steps _)

theorem forward_separatedUnlessClosed {item : Window → α × Window} (h : Forward item)
    (steps : Nat) : Forward (separatedUnlessClosed item steps) := by
  intro w
  unfold separatedUnlessClosed
  split
  · exact .refl w
  · exact forward_separated h steps w

/-! ## Designators and expressions -/

theorem forward_readIndices (steps : Nat) : Forward (readIndices steps) := by
  induction steps with
  | zero => exact Later.refl
  | succ steps ih =>
    intro w
    unfold readIndices
    split
    · exact w.later_advance.trans
        ((later_expect _ _).trans ((later_expect _ _).trans (ih _)))
    · exact .refl w

theorem forward_readMembers (steps : Nat) : Forward (readMembers steps) := by
  induction steps with
  | zero => exact Later.refl
  | succ steps ih =>
    intro w
    unfold readMembers
    split
    · have hname := w.later_advance.trans (later_expect w.advance .identifier)
      split
      next heq => simpa [heq] using hname
      next heq =>
        rw [heq] at hname
        exact hname.trans ((forward_readIndices steps _).trans (ih _))
    · exact .refl w

theorem forward_readDesignator (steps : Nat) : Forward (readDesignator steps) := by
  intro w
  have hhead := later_expect w .identifier
  unfold readDesignator
  split
  next heq => simpa [heq] using hhead
  next heq =>
    rw [heq] at hhead
    exact hhead.trans ((forward_readIndices steps _).trans (forward_readMembers steps _))

theorem forward_readExpr_and (g : Grammar) (steps : Nat) :
    (∀ power, Forward (readExpr g steps power)) ∧ (∀ form, Forward (readFactor g steps form)) ∧
      ∀ power left, Forward (readOperators g steps power left) := by
  induction steps with
  | zero =>
    refine ⟨fun power => Later.refl, ?_, fun power left => Later.refl⟩
    intro form w
    cases form with
    | number | boolean | negation => exact w.later_advance
    | designator => exact forward_readDesignator 0 w
    | grouping => exact w.later_advance.trans (later_expect _ _)
  | succ steps ih =>
    obtain ⟨hexpr, hfactor, hoperators⟩ := ih
    refine ⟨?_, ?_, ?_⟩
    · intro power w
      unfold readExpr
      split
      · exact .refl w
      · exact (hfactor _ w).trans (hoperators _ _ _)
    · intro form w
      cases form with
      | number | boolean => exact w.later_advance
      | designator =>
        simp only [readFactor]
        exact forward_readDesignator (steps + 1) w
      | negation => exact w.later_advance.trans (hexpr _ _)
      | grouping => exact w.later_advance.trans ((hexpr _ _).trans (later_expect _ _))
    · intro power left w
      unfold readOperators
      split
      · exact .refl w
      · split
        · exact w.later_advance.trans ((hexpr _ _).trans (hoperators _ _ _))
        · exact .refl w

theorem forward_readExpr (g : Grammar) (steps : Nat) (power : Power) :
    Forward (readExpr g steps power) :=
  (forward_readExpr_and g steps).1 power

/-! ## Declarations -/

theorem forward_readScalarSpec : Forward readScalarSpec := by
  intro w
  unfold readScalarSpec
  split
  · exact w.later_advance
  · exact .refl w

theorem forward_readTypeSpec : Forward readTypeSpec := by
  intro w
  unfold readTypeSpec
  split
  · exact w.later_advance.trans (later_expect _ _)
  · exact forward_readScalarSpec w

theorem forward_readConstEntry (g : Grammar) (steps : Nat) : Forward (readConstEntry g steps) := by
  intro w
  have hname := (forward_readScalarSpec w).trans (later_expect w.readScalarSpec.2 .identifier)
  simp only [readConstEntry]
  split
  next heq => simpa [heq] using hname
  next heq =>
    rw [heq] at hname
    exact hname.trans ((later_expect _ _).trans (forward_readExpr g steps _ _))

theorem forward_readConst (g : Grammar) (steps : Nat) : Forward (readConst g steps) :=
  fun w => w.later_advance.trans
    ((forward_separated (forward_readConstEntry g steps) steps _).trans (later_expect _ _))

theorem forward_readDeclarator (steps : Nat) : Forward (readDeclarator steps) := by
  intro w
  have hname := later_expect w .identifier
  unfold readDeclarator
  split
  next heq => simpa [heq] using hname
  next heq =>
    rw [heq] at hname
    exact hname.trans (forward_readIndices steps _)

theorem forward_readDeclarators (steps : Nat) (ty : TypeSpec) :
    Forward (readDeclarators steps ty) :=
  fun w => (forward_separated (forward_readDeclarator steps) steps w).trans (later_expect _ _)

theorem forward_readStructItems (steps : Nat) : Forward (readStructItems steps) := by
  induction steps with
  | zero => exact Later.refl
  | succ steps ih =>
    intro w
    unfold readStructItems
    split
    · exact .refl w
    · split
      · exact (forward_readTypeSpec w).trans ((later_expect _ _).trans
          ((forward_readIndices steps _).trans ((later_expect _ _).trans (ih _))))
      · exact w.later_advance.trans (ih _)

theorem forward_readStruct (steps : Nat) : Forward (readStruct steps) := by
  intro w
  have hname := w.later_advance.trans (later_expect w.advance .identifier)
  simp only [readStruct]
  split
  · exact hname.trans ((later_expect _ _).trans
      ((forward_readStructItems steps _).trans ((later_expect _ _).trans (later_expect _ _))))
  · exact hname.trans (forward_readDeclarators steps _ _)

theorem forward_readVars (steps : Nat) : Forward (readVars steps) :=
  fun w => (forward_readTypeSpec w).trans (forward_readDeclarators steps w.readTypeSpec.1 _)

theorem later_readDeclaration? {g : Grammar} {steps : Nat} {w w' : Window} {d : Declaration}
    (h : w.readDeclaration? g steps = some (d, w')) : w.Later w' := by
  have hsnd : ∀ {read : Declaration × Window}, some read = some (d, w') → w' = read.2 := by
    intro read hread
    rw [Option.some.inj hread]
  unfold readDeclaration? at h
  split at h
  · rw [hsnd h]
    exact forward_readConst g steps w
  · rw [hsnd h]
    exact forward_readVars steps w
  · rw [hsnd h]
    exact forward_readVars steps w
  · rw [hsnd h]
    exact forward_readStruct steps w
  · simp at h

/-! ## Statements -/

theorem forward_readCondition (g : Grammar) (steps : Nat) : Forward (readCondition g steps) :=
  fun w => (later_expect w _).trans ((forward_readExpr g steps _ _).trans (later_expect _ _))

theorem forward_readAssignment (g : Grammar) (steps : Nat) : Forward (readAssignment g steps) := by
  intro w
  have hbecomes := (forward_readDesignator steps w).trans
    (later_expect (w.readDesignator steps).2 .assignment)
  simp only [readAssignment]
  split
  next heq => simpa [heq] using hbecomes
  next heq =>
    rw [heq] at hbecomes
    exact hbecomes.trans (forward_readExpr g steps _ _)

theorem forward_readAssign (g : Grammar) (steps : Nat) (target : Designator) :
    Forward (readAssign g steps target) := by
  intro w
  have hvalue := w.later_advance.trans (forward_readExpr g steps .lowest w.advance)
  simp only [readAssign]
  split
  · exact hvalue.trans ((later_advance _).trans ((forward_readExpr g steps _ _).trans
      ((later_expect _ _).trans ((forward_readExpr g steps _ _).trans (later_expect _ _)))))
  · exact hvalue.trans (later_expect _ _)

theorem forward_readCall (g : Grammar) (steps : Nat) (callee : Designator) :
    Forward (readCall g steps callee) :=
  fun w => w.later_advance.trans
    ((forward_separatedUnlessClosed (forward_readExpr g steps .lowest) steps _).trans
      ((later_expect _ _).trans (later_expect _ _)))

theorem forward_readDesignatorStmt (g : Grammar) (steps : Nat) :
    Forward (readDesignatorStmt g steps) := by
  intro w
  have htarget := forward_readDesignator steps w
  simp only [readDesignatorStmt]
  split
  · exact htarget
  · split
    · exact htarget.trans (forward_readAssign g steps _ _)
    · exact htarget.trans (forward_readCall g steps _ _)
    · exact htarget

theorem forward_readRead (steps : Nat) : Forward (readRead steps) :=
  fun w => w.later_advance.trans ((forward_readDesignator steps _).trans (later_expect _ _))

theorem forward_readWrite (g : Grammar) (steps : Nat) : Forward (readWrite g steps) :=
  fun w => w.later_advance.trans
    ((forward_separated (forward_readExpr g steps .lowest) steps _).trans (later_expect _ _))

/-- The readers of statements, for one number of steps. -/
structure ForwardStmts (g : Grammar) (steps : Nat) : Prop where
  stmt : Forward (readStmt g steps)
  form : ∀ form, Forward (readStmtForm g steps form)
  stmts : Forward (readStmts g steps)
  cases : Forward (readCases g steps)
  block : Forward (readBlockItems g steps)

theorem ForwardStmts.readStmtForm {g : Grammar} {steps : Nat} (h : ForwardStmts g steps)
    (form : StmtForm) : Forward (readStmtForm g (steps + 1) form) := by
  intro w
  simp only [Window.readStmtForm]
  cases form with
  | designator => exact forward_readDesignatorStmt g steps w
  | branch =>
    have hbody := w.later_advance.trans ((forward_readCondition g steps _).trans (h.stmt _))
    dsimp only
    split
    · exact hbody.trans ((later_advance _).trans (h.stmt _))
    · exact hbody
  | whileLoop => exact w.later_advance.trans ((forward_readCondition g steps _).trans (h.stmt _))
  | forLoop =>
    exact w.later_advance.trans ((later_expect _ _).trans
      ((forward_readAssignment g steps _).trans ((later_expect _ _).trans
        ((forward_readExpr g steps _ _).trans ((later_expect _ _).trans
          ((forward_readAssignment g steps _).trans ((later_expect _ _).trans (h.stmt _))))))))
  | switch =>
    have hcases := w.later_advance.trans ((later_expect _ .openParen).trans
      ((forward_readExpr g steps .lowest _).trans ((later_expect _ .closeParen).trans
        ((later_expect _ .openCurly).trans (h.cases _)))))
    dsimp only
    split
    · exact hcases.trans ((later_advance _).trans ((later_expect _ _).trans
        ((h.stmts _).trans (later_expect _ _))))
    · exact hcases.trans (later_expect _ _)
  | read => exact forward_readRead steps w
  | write => exact forward_readWrite g steps w
  | block => exact w.later_advance.trans ((h.block _).trans (later_expect _ _))

theorem forwardStmts (g : Grammar) (steps : Nat) : ForwardStmts g steps := by
  induction steps with
  | zero => exact ⟨Later.refl, fun _ => Later.refl, Later.refl, Later.refl, Later.refl⟩
  | succ steps ih =>
    refine ⟨?_, ih.readStmtForm, ?_, ?_, ?_⟩
    · intro w
      unfold readStmt
      split
      · exact .refl w
      · exact ih.form _ w
    · intro w
      unfold readStmts
      split
      · exact (ih.stmt w).trans (ih.stmts _)
      · exact .refl w
    · intro w
      unfold readCases
      split
      · exact w.later_advance.trans ((forward_readExpr g steps _ _).trans
          ((later_expect _ _).trans ((ih.stmts _).trans (ih.cases _))))
      · exact .refl w
    · intro w
      unfold readBlockItems
      split
      · exact .refl w
      · split
        next h => exact (later_readDeclaration? h).trans (ih.block _)
        next =>
          split
          · exact (ih.stmt w).trans (ih.block _)
          · exact w.later_advance.trans (ih.block _)

/-! ## Names -/

/-- All names that the window shows or will show have the property. -/
def Names (P : String → Prop) (w : Window) : Prop :=
  ∀ t : Token, t ∈ w.rest ∨ t = w.ending → t.kind = .identifier → P t.value

variable {P : String → Prop} {w w' : Window}

theorem Names.later (h : w.Names P) (hlater : w.Later w') : w'.Names P := by
  rintro t (ht | rfl) hkind
  · exact h t (.inl (hlater.rest.mem ht)) hkind
  · exact h _ (.inr hlater.ending) hkind

theorem ahead_mem (w : Window) : w.ahead ∈ w.rest ∨ w.ahead = w.ending := by
  unfold ahead
  cases w.rest with
  | nil => exact .inr rfl
  | cons t rest => exact .inl List.mem_cons_self

theorem Names.expect (h : w.Names P) (hempty : P "") :
    P (w.expect .identifier).1.valueD := by
  unfold Window.expect
  split
  next hkind => exact h w.ahead w.ahead_mem hkind
  next => exact hempty

end Window

mutual

/-- The names of a procedure and of all procedures inside it have the property. -/
def Procedure.Named (P : String → Prop) : Procedure → Prop
  | .mk _ name _ _ _ _ body _ => P name.valueD ∧ bodyNamed P body

def bodyNamed (P : String → Prop) : List BodyItem → Prop
  | [] => True
  | item :: more => item.Named P ∧ bodyNamed P more

def BodyItem.Named (P : String → Prop) : BodyItem → Prop
  | .nested p => p.Named P
  | .declaration _ | .statement _ | .skipped _ => True

end

def External.Named (P : String → Prop) : External → Prop
  | procedure _ _ name _ _ => P name.valueD
  | vars _ _ _ _ | const _ _ _ _ _ | missing _ _ => True

def ProgramItem.Named (P : String → Prop) : ProgramItem → Prop
  | procedure p => p.Named P
  | external e => e.Named P
  | declaration _ | skipped _ => True

namespace Window

variable {P : String → Prop}

theorem forward_readParam : Forward readParam :=
  fun w => (forward_readScalarSpec w).trans (later_expect _ _)

/-- The readers of procedures, for one number of steps. -/
structure ForwardProcedures (P : String → Prop) (g : Grammar) (steps : Nat) : Prop where
  procedure : Forward (readProcedure g steps)
  body : Forward (readBodyItems g steps)
  procedureNamed : ∀ w : Window, w.Names P → (readProcedure g steps w).1.Named P
  bodyNamed : ∀ w : Window, w.Names P → bodyNamed P (readBodyItems g steps w).1

theorem ForwardProcedures.readProcedure {g : Grammar} {steps : Nat}
    (h : ForwardProcedures P g steps) (hempty : P "") (w : Window) :
    w.Later (readProcedure g (steps + 1) w).2 ∧
      (w.Names P → (readProcedure g (steps + 1) w).1.Named P) := by
  have hbrace := w.later_advance.trans ((later_expect _ .identifier).trans
    ((later_expect _ .openParen).trans
      ((forward_separatedUnlessClosed forward_readParam steps _).trans
        ((later_expect _ .closeParen).trans (later_expect _ .openCurly)))))
  simp only [Window.readProcedure]
  refine ⟨hbrace.trans ((h.body _).trans (later_expect _ _)), ?_⟩
  intro hnames
  exact ⟨(hnames.later w.later_advance).expect hempty, h.bodyNamed _ (hnames.later hbrace)⟩

theorem ForwardProcedures.readBodyItems {g : Grammar} {steps : Nat}
    (h : ForwardProcedures P g steps) (w : Window) :
    w.Later (readBodyItems g (steps + 1) w).2 ∧
      (w.Names P → SlotLang.bodyNamed P (readBodyItems g (steps + 1) w).1) := by
  simp only [Window.readBodyItems]
  split
  · exact ⟨.refl w, fun _ => trivial⟩
  · split
    next d w₁ hdeclaration =>
      have hlater := later_readDeclaration? hdeclaration
      exact ⟨hlater.trans (h.body _), fun hnames => ⟨trivial, h.bodyNamed _ (hnames.later hlater)⟩⟩
    next =>
      split
      · exact ⟨(h.procedure w).trans (h.body _), fun hnames =>
          ⟨h.procedureNamed w hnames, h.bodyNamed _ (hnames.later (h.procedure w))⟩⟩
      · split
        · have hstmt := (forwardStmts g steps).stmt w
          exact ⟨hstmt.trans (h.body _), fun hnames =>
            ⟨trivial, h.bodyNamed _ (hnames.later hstmt)⟩⟩
        · exact ⟨w.later_advance.trans (h.body _), fun hnames =>
            ⟨trivial, h.bodyNamed _ (hnames.later w.later_advance)⟩⟩

theorem forwardProcedures (g : Grammar) (hempty : P "") (steps : Nat) :
    ForwardProcedures P g steps := by
  induction steps with
  | zero => exact ⟨Later.refl, Later.refl, fun _ _ => ⟨hempty, trivial⟩, fun _ _ => trivial⟩
  | succ steps ih =>
    exact ⟨fun w => (ih.readProcedure hempty w).1, fun w => (ih.readBodyItems w).1,
      fun w => (ih.readProcedure hempty w).2, fun w => (ih.readBodyItems w).2⟩

theorem forward_readExternalParams? (steps : Nat) : Forward (readExternalParams? steps) := by
  intro w
  unfold readExternalParams?
  split
  · exact w.later_advance.trans
      ((forward_separatedUnlessClosed forward_readScalarSpec steps _).trans (later_expect _ _))
  · exact .refl w

theorem forward_readExternal (steps : Nat) : Forward (readExternal steps) := by
  intro w
  have hkeyword := w.later_advance
  simp only [readExternal]
  split
  · exact hkeyword.trans ((forward_readScalarSpec _).trans
      ((forward_separated (forward_expect .identifier) steps _).trans (later_expect _ _)))
  · exact hkeyword.trans ((forward_readScalarSpec _).trans
      ((forward_separated (forward_expect .identifier) steps _).trans (later_expect _ _)))
  · exact hkeyword.trans ((later_advance _).trans ((forward_readScalarSpec _).trans
      ((later_expect _ _).trans (later_expect _ _))))
  · have hname := hkeyword.trans ((later_advance _).trans (later_expect w.advance.advance .identifier))
    split
    next heq =>
      rw [heq] at hname
      exact hname.trans (later_expect _ _)
    next heq =>
      rw [heq] at hname
      exact hname.trans ((forward_readExternalParams? steps _).trans (later_expect _ _))
  · exact hkeyword

theorem readExternal_named (hempty : P "") (steps : Nat) {w : Window} (hnames : w.Names P) :
    (readExternal steps w).1.Named P := by
  have hname := (hnames.later (w.later_advance.trans (later_advance _))).expect hempty
  simp only [readExternal]
  split
  · trivial
  · trivial
  · trivial
  · split
    next heq => exact hempty
    next heq =>
      rw [heq] at hname
      exact hname
  · trivial

theorem readProgramItems_named (g : Grammar) (hempty : P "") (steps : Nat) (w : Window)
    (hnames : w.Names P) : ∀ item ∈ (readProgramItems g steps w).1, item.Named P := by
  induction steps generalizing w with
  | zero => simp [readProgramItems]
  | succ steps ih =>
    have hprocedures := forwardProcedures g hempty steps
    simp only [readProgramItems]
    split
    · simp
    · split
      next d w₁ hdeclaration =>
        exact List.forall_mem_cons.mpr
          ⟨trivial, ih _ (hnames.later (later_readDeclaration? hdeclaration))⟩
      next =>
        split
        · exact List.forall_mem_cons.mpr ⟨hprocedures.procedureNamed w hnames,
            ih _ (hnames.later (hprocedures.procedure w))⟩
        · split
          · exact List.forall_mem_cons.mpr
              ⟨readExternal_named hempty steps hnames,
                ih _ (hnames.later (forward_readExternal steps w))⟩
          · exact List.forall_mem_cons.mpr ⟨trivial, ih _ (hnames.later w.later_advance)⟩

theorem readProgram_named (g : Grammar) (hempty : P "") (steps : Nat) (w : Window)
    (hnames : w.Names P) : ∀ item ∈ (w.readProgram g steps).1.items, item.Named P :=
  readProgramItems_named g hempty steps _ (hnames.later
    ((later_expect w .kwProgram).trans ((later_expect _ .identifier).trans
      (later_expect _ .openCurly))))

end Window

/-! ## Scanned names -/

theorem scan_names {source file : String} {tokens : List Token}
    (h : scan source file = .ok tokens) : (Window.ofTokens tokens file).Names IsWord := by
  obtain ⟨found, hcut, rfl⟩ := cut_of_scan_ok h
  have hword : ∀ t ∈ found, t.kind = .identifier → IsWord t.value := by
    intro t ht hkind
    have hspells := hcut.spells t ht
    rw [hkind] at hspells
    exact hspells.1
  have hending : ∀ t : Token, t.kind = .eof → t.kind = .identifier → IsWord t.value := by
    intro t heof hkind
    rw [heof] at hkind
    contradiction
  rintro t (ht | rfl) hkind
  · rcases List.mem_append.mp ht with ht | ht
    · exact hword t ht hkind
    · obtain rfl := List.mem_singleton.mp ht
      exact hending _ rfl hkind
  · exact hending _ (Window.kind_ending_ofTokens _ _) hkind

end SlotLang
