import SlotLang.Proofs.Definitions
import SlotLang.Proofs.Echoes

/-!
# Statements and procedures beside a residue

The labels that a statement draws are moved past the labels of the residue, and a procedure draws its
own label from the names around it, none of which is the name in the residue.  So the code of a
procedure is the same beside a residue, up to the numbers of its labels.
-/

namespace SlotLang

open Lowering

variable {ρ : Residue}

/-! ## Statements -/

theorem checkAssignable_echoes (target : Option Resolved) :
    Echoes ρ [] id (checkAssignable target) (checkAssignable target) := by
  cases target with
  | none => exact .done ()
  | some target => exact .check _

theorem storeChecked_echoes (target : Option Resolved) (ty : Ty) :
    Echoes ρ [] id (storeChecked target ty) (storeChecked target ty) := by
  cases target with
  | none => exact .done ()
  | some target => exact .bind (.check _) fun _ => .store target

section Simple

variable {d : Designator} {value guard first second : Expr}

theorem lowerAssign_echoes (hd : ρ.Clears (d.map unplaced).outline)
    (hvalue : ρ.Clears (value.map unplaced).outline) (becomes : Token) (semicolon : Terminal) :
    Echoes ρ [] id (lowerAssign d becomes value semicolon)
      (lowerAssign (d.map unplaced) (unplaced.token becomes) (value.map unplaced)
        (semicolon.map unplaced)) :=
  .bind (d.lowerTarget_echoes hd) fun target => .bind (.consume _ _) fun _ =>
    .bind (checkAssignable_echoes target) fun _ => .bind (value.lower_echoes hvalue) fun ty =>
    .bind (.terminal _) fun _ => storeChecked_echoes target ty

theorem lowerChoose_echoes (hd : ρ.Clears (d.map unplaced).outline)
    (hguard : ρ.Clears (guard.map unplaced).outline) (hfirst : ρ.Clears (first.map unplaced).outline)
    (hsecond : ρ.Clears (second.map unplaced).outline) (becomes question : Token)
    (colon semicolon : Terminal) :
    Echoes ρ [] id (lowerChoose d becomes guard question first colon second semicolon)
      (lowerChoose (d.map unplaced) (unplaced.token becomes) (guard.map unplaced)
        (unplaced.token question) (first.map unplaced) (colon.map unplaced) (second.map unplaced)
        (semicolon.map unplaced)) :=
  .bind (d.lowerTarget_echoes hd) fun target => .bind (.consume _ _) fun _ =>
    .bind (checkAssignable_echoes target) fun _ => .bind (guard.lower_echoes hguard) fun _ =>
    .bind (.consume _ _) fun _ => .bind (.check _) fun _ => .bind .freshLabel fun elseLabel =>
    .bind (.emit (.jumpUnless elseLabel)) fun _ => .bind .freshLabel fun endLabel =>
    .bind (first.lower_echoes hfirst) fun firstTy => .bind (.terminal _) fun _ =>
    .bind (storeChecked_echoes target firstTy) fun _ => .bind (.emit (.jump endLabel)) fun _ =>
    .bind (.land elseLabel) fun _ => .bind (second.lower_echoes hsecond) fun secondTy =>
    .bind (.terminal _) fun _ => .bind (storeChecked_echoes target secondTy) fun _ =>
    .land endLabel

theorem lowerRead_echoes (hd : ρ.Clears (d.map unplaced).outline) (keyword : Token)
    (semicolon : Terminal) : Echoes ρ [] id (lowerRead keyword d semicolon)
      (lowerRead (unplaced.token keyword) (d.map unplaced) (semicolon.map unplaced)) := by
  refine .bind (.consume _ _) fun _ => .bind (d.lowerTarget_echoes hd) fun target =>
    .bind (.terminal _) fun _ => ?_
  cases target with
  | none => exact .done ()
  | some target =>
    exact .bind (.check _) fun _ => .bind (.emit .read) fun _ => .store target

theorem Assignment.lower_echoes {a : Assignment} (h : ρ.Clears (a.map unplaced).outline) :
    Echoes ρ [] id a.lower (a.map unplaced).lower := by
  cases a with
  | complete d becomes value =>
    simp only [Assignment.map, Assignment.outline, Residue.clears_append] at h
    exact .bind (d.lowerTarget_echoes h.1) fun target => .bind (.consume _ _) fun _ =>
      .bind (checkAssignable_echoes target) fun _ => .bind (value.lower_echoes h.2.2) fun ty =>
      storeChecked_echoes target ty
  | broken d next =>
    simp only [Assignment.map, Assignment.outline, Residue.clears_append] at h
    exact .bind (.discard (d.lowerTarget_echoes h.1)) fun _ => .refuseBefore _ _ _ _

theorem Condition.lower_echoes {c : Condition} (h : ρ.Clears (c.map unplaced).outline) :
    Echoes ρ [] id c.lower (c.map unplaced).lower := by
  simp only [Condition.map, Condition.outline, Residue.clears_append] at h
  exact .bind (.terminal _) fun _ => .bind (c.test.lower_echoes h.2.1) fun _ =>
    .bind (.terminal _) fun _ => .check _

end Simple

theorem lowerWrite_echoes {operands : Separated Expr}
    (h : ∀ e ∈ operands.toList, ρ.Clears (e.map unplaced).outline) (keyword : Token)
    (semicolon : Terminal) : Echoes ρ [] id (lowerWrite keyword operands semicolon)
      (lowerWrite (unplaced.token keyword) (operands.map unplaced (Expr.map unplaced))
        (semicolon.map unplaced)) := by
  refine .bind (.consume _ _) fun _ => .bind (.discard (Separated.lower_quiet ?_)) fun _ =>
    .terminal _
  exact fun e he => .bind (e.lower_echoes (h e he)) fun _ => .bind (.check _) fun _ => .emit .write

/-- The names that make up a label are those of open procedures, and the last one is its own. -/
theorem ScopeStack.Carries.hides_labelForCall {st st' : ScopeStack} (h : st.Carries ρ st')
    {name : String} (hname : ρ.hides name = false) (level : Nat) :
    ρ.hides (st.labelForCall level name) = false := by
  unfold ScopeStack.labelForCall
  cases hnames : (st.openProcedures.drop level).reverse with
  | nil =>
    rw [Residue.hides, List.nil_append, root_joinNames]
    exact hname
  | cons first names =>
    rw [Residue.hides, List.cons_append, root_joinNames]
    have hmem : first ∈ (st.openProcedures.drop level).reverse := by simp [hnames]
    exact h.clear first (List.mem_of_mem_drop (List.mem_reverse.mp hmem))

theorem emitCall_echoes {target : Resolved} (htarget : ρ.hides target.symbol.name = false)
    (arguments : List Ty) :
    Echoes ρ [] id (emitCall target arguments) (emitCall target arguments) := by
  unfold emitCall
  cases Typing.callable target with
  | error fault => exact .refuse _ _
  | ok _ =>
    refine .env_bind fun env env' henv => ?_
    have hlevel : env'.scopes.callLevel target.symbol = env.scopes.callLevel target.symbol := by
      rw [ScopeStack.callLevel, ScopeStack.callLevel, henv.scopes.depth_eq]
    have hlabel : callLabel env'.scopes target = callLabel env.scopes target := by
      simp only [callLabel, hlevel, ScopeStack.labelForCall, henv.scopes.procedures]
    have hvisible : ρ.hides (callLabel env.scopes target) = false := by
      unfold callLabel
      split
      · exact htarget
      · exact henv.scopes.hides_labelForCall htarget _
    simp only [hlevel, hlabel, henv.signatures _ hvisible]
    cases env.signatures.get? (callLabel env.scopes target) with
    | none => exact .emit _
    | some signature => exact .bind (.check _) fun _ => .emit _

theorem lowerCall_echoes {callee : Designator} {arguments : Option (Separated Expr)}
    (hcallee : ρ.Clears (callee.map unplaced).outline)
    (harguments : ∀ e ∈ Separated.toList? arguments, ρ.Clears (e.map unplaced).outline)
    (opening : Token) (closing semicolon : Terminal) :
    Echoes ρ [] id (lowerCall callee opening arguments closing semicolon)
      (lowerCall (callee.map unplaced) (unplaced.token opening)
        (arguments.map (Separated.map unplaced (Expr.map unplaced))) (closing.map unplaced)
        (semicolon.map unplaced)) := by
  refine .bind_of (callee.lowerTarget_echoes hcallee) (callee.lowerTarget_visible hcallee)
    fun target hvisible => .bind (.consume _ _) fun _ =>
    .bind (Separated.lower?_quiet fun e he => e.lower_echoes (harguments e he)) fun types =>
    .bind (.terminal _) fun _ => .bind (.terminal _) fun _ => ?_
  cases target with
  | none => exact .done ()
  | some target => exact emitCall_echoes (hvisible target rfl) types

section Compound

variable {body body' alternative alternative' : Lowering Unit} {rs rs' : List Register}

theorem lowerBranch_echoes (hbody : Echoes ρ rs id body body')
    (halternative : Echoes ρ rs' id alternative alternative') {condition : Condition}
    (h : ρ.Clears (condition.map unplaced).outline) (keyword : Token) :
    Echoes ρ (rs ++ rs') id (lowerBranch keyword condition body alternative)
      (lowerBranch (unplaced.token keyword) (condition.map unplaced) body' alternative') :=
  .bind (.consume _ _) fun _ => .bind (condition.lower_echoes h) fun _ =>
    .bind .freshLabel fun elseLabel => .bind (.emit (.jumpUnless elseLabel)) fun _ =>
    .append hbody fun _ => .bind .freshLabel fun endLabel => .bind (.emit (.jump endLabel)) fun _ =>
    .bind (.land elseLabel) fun _ => .andThen halternative fun _ => .land endLabel

theorem lowerWhile_echoes (hbody : Echoes ρ rs id body body') {condition : Condition}
    (h : ρ.Clears (condition.map unplaced).outline) (keyword : Token) :
    Echoes ρ rs id (lowerWhile keyword condition body)
      (lowerWhile (unplaced.token keyword) (condition.map unplaced) body') :=
  .bind (.consume _ _) fun _ => .bind .freshLabel fun startLabel =>
    .bind .freshLabel fun endLabel => .bind (.land startLabel) fun _ =>
    .bind (condition.lower_echoes h) fun _ => .bind (.emit (.jumpUnless endLabel)) fun _ =>
    .andThen hbody fun _ => .bind (.emit (.jump startLabel)) fun _ => .land endLabel

theorem lowerFor_echoes (hbody : Echoes ρ rs id body body') {init step : Assignment} {test : Expr}
    (hinit : ρ.Clears (init.map unplaced).outline) (htest : ρ.Clears (test.map unplaced).outline)
    (hstep : ρ.Clears (step.map unplaced).outline) (keyword : Token)
    (opening afterInit afterTest closing : Terminal) :
    Echoes ρ rs id (lowerFor keyword opening init afterInit test afterTest step closing body)
      (lowerFor (unplaced.token keyword) (opening.map unplaced) (init.map unplaced)
        (afterInit.map unplaced) (test.map unplaced) (afterTest.map unplaced) (step.map unplaced)
        (closing.map unplaced) body') :=
  .bind (.consume _ _) fun _ => .bind (.terminal _) fun _ =>
    .bind (init.lower_echoes hinit) fun _ => .bind (.terminal _) fun _ =>
    .bind .freshLabel fun backLabel => .bind (.emit (.jump backLabel)) fun _ =>
    .bind .freshLabel fun startLabel => .bind .freshLabel fun endLabel =>
    .bind (.land startLabel) fun _ => .bind (test.lower_echoes htest) fun _ =>
    .bind (.terminal _) fun _ => .bind (step.lower_echoes hstep) fun _ =>
    .bind (.terminal _) fun _ => .bind (.check _) fun _ =>
    .bind (.emit (.jumpUnless endLabel)) fun _ => .andThen hbody fun _ =>
    .bind (.land backLabel) fun _ => .bind (.emit (.jump startLabel)) fun _ => .land endLabel

theorem lowerCase_echoes (hbody : Echoes ρ rs id body body') {label : Expr}
    (h : ρ.Clears (label.map unplaced).outline) (subjectTy : Ty) (subject : List Instruction)
    (endLabel : Label) (keyword : Token) (colon : Terminal) :
    Echoes ρ rs id (lowerCase subjectTy subject endLabel keyword label colon body)
      (lowerCase subjectTy (subject.map (Instruction.shift ρ.labels)) (endLabel.shift ρ.labels)
        (unplaced.token keyword) (label.map unplaced) (colon.map unplaced) body') :=
  .bind (.consume _ _) fun _ => .bind (.emitAll subject) fun _ =>
    .bind (label.lower_echoes h) fun _ => .bind (.terminal _) fun _ => .bind (.check _) fun _ =>
    .bind .freshLabel fun nextLabel => .bind (.emit (.compare .equ)) fun _ =>
    .bind (.emit (.jumpUnless nextLabel)) fun _ => .andThen hbody fun _ =>
    .bind (.emit (.jump endLabel)) fun _ => .land nextLabel

theorem lowerFallback_echoes (fallback : Option (Token × Terminal)) :
    Echoes ρ [] id (lowerFallback fallback) (lowerFallback
      (fallback.map fun parts => (unplaced.token parts.1, parts.2.map unplaced))) := by
  cases fallback with
  | none => exact .done ()
  | some parts => exact .bind (.consume _ _) fun _ => .terminal _

theorem lowerSwitch_echoes {cases cases' : Ty → List Instruction → Label → Lowering Unit}
    (hcases : ∀ ty code label, Echoes ρ rs id (cases ty code label)
      (cases' ty (code.map (Instruction.shift ρ.labels)) (label.shift ρ.labels)))
    (hbody : Echoes ρ rs' id body body') {subject : Expr}
    (h : ρ.Clears (subject.map unplaced).outline) (keyword : Token)
    (opening closing brace closingBrace : Terminal) (fallback : Option (Token × Terminal)) :
    Echoes ρ (rs ++ rs') id
      (lowerSwitch keyword opening subject closing brace cases fallback body closingBrace)
      (lowerSwitch (unplaced.token keyword) (opening.map unplaced) (subject.map unplaced)
        (closing.map unplaced) (brace.map unplaced) cases'
        (fallback.map fun parts => (unplaced.token parts.1, parts.2.map unplaced)) body'
        (closingBrace.map unplaced)) :=
  .bind (.consume _ _) fun _ => .bind (.terminal _) fun _ =>
    .bind (.captured (subject.lower_echoes h)) fun found => .bind (.terminal _) fun _ =>
    .bind (.terminal _) fun _ => .bind .freshLabel fun endLabel =>
    .append (hcases found.1 found.2 endLabel) fun _ => .bind (lowerFallback_echoes fallback) fun _ =>
    .andThen hbody fun _ => .bind (.terminal _) fun _ => .land endLabel

end Compound

theorem clears_operands {items : Separated Expr}
    (h : ρ.Clears ((items.map unplaced (Expr.map unplaced)).outline Expr.outline)) :
    ∀ e ∈ items.toList, ρ.Clears (e.map unplaced).outline := by
  intro e he
  refine Separated.clears_outline h _ ?_
  rw [Separated.toList_map]
  exact List.mem_map_of_mem he

theorem clears_arguments {items : Option (Separated Expr)}
    (h : ρ.Clears (Separated.outline? Expr.outline
      (items.map (Separated.map unplaced (Expr.map unplaced))))) :
    ∀ e ∈ Separated.toList? items, ρ.Clears (e.map unplaced).outline := by
  cases items with
  | none => simp [Separated.toList?]
  | some items => exact clears_operands h

mutual

theorem Stmt.lower_echoes (s : Stmt) (h : ρ.Clears (s.map unplaced).outline) :
    Echoes ρ (s.map unplaced).registers id s.lower (s.map unplaced).lower := by
  cases s with
  | missing next => exact .refuseBefore _ _ _ _
  | broken target => exact .discard target.lower_echoes
  | dangling target next =>
    simp only [Stmt.map, Stmt.outline, Residue.clears_append] at h
    exact .bind (.discard (target.lowerTarget_echoes h.1)) fun _ => .refuseBefore _ _ _ _
  | assign target becomes value semicolon =>
    simp only [Stmt.map, Stmt.outline, Residue.clears_append] at h
    exact lowerAssign_echoes h.1 h.2.2.1 becomes semicolon
  | choose target becomes guard question first colon second semicolon =>
    simp only [Stmt.map, Stmt.outline, Residue.clears_append] at h
    exact lowerChoose_echoes h.1 h.2.2.1 h.2.2.2.2.1 h.2.2.2.2.2.2.1 becomes question colon semicolon
  | call callee opening arguments closing semicolon =>
    simp only [Stmt.map, Stmt.outline, Residue.clears_append] at h
    exact lowerCall_echoes h.1 (clears_arguments h.2.2.1) opening closing semicolon
  | branch keyword condition body =>
    simp only [Stmt.map, Stmt.outline, Residue.clears_append] at h
    have hbranch := lowerBranch_echoes (body.lower_echoes h.2.2) (.done ()) h.2.1 keyword
    rwa [List.append_nil] at hbranch
  | branchElse keyword condition body otherwise alternative =>
    simp only [Stmt.map, Stmt.outline, Residue.clears_append] at h
    exact lowerBranch_echoes (body.lower_echoes h.2.2.1)
      (.bind (.consume _ _) fun _ => alternative.lower_echoes h.2.2.2.2) h.2.1 keyword
  | whileLoop keyword condition body =>
    simp only [Stmt.map, Stmt.outline, Residue.clears_append] at h
    exact lowerWhile_echoes (body.lower_echoes h.2.2) h.2.1 keyword
  | forLoop keyword opening init afterInit test afterTest step closing body =>
    simp only [Stmt.map, Stmt.outline, Residue.clears_append] at h
    obtain ⟨-, -, hinit, -, htest, -, hstep, -, hbody⟩ := h
    exact lowerFor_echoes (body.lower_echoes hbody) hinit htest hstep keyword opening afterInit
      afterTest closing
  | «switch» keyword opening subject closing brace cases fallback fallbackBody closingBrace =>
    simp only [Stmt.map, Stmt.outline, Residue.clears_append] at h
    obtain ⟨-, -, hsubject, -, -, hcases, -, hbody, -⟩ := h
    exact lowerSwitch_echoes (lowerCases_echoes cases hcases) (lowerStmts_echoes fallbackBody hbody)
      hsubject keyword opening closing brace closingBrace fallback
  | read keyword target semicolon =>
    simp only [Stmt.map, Stmt.outline, Residue.clears_append] at h
    exact lowerRead_echoes h.2.1 keyword semicolon
  | write keyword operands semicolon =>
    simp only [Stmt.map, Stmt.outline, Residue.clears_append] at h
    exact lowerWrite_echoes (clears_operands h.2.1) keyword semicolon
  | block opening items closing =>
    simp only [Stmt.map, Stmt.outline, Residue.clears_append] at h
    exact .bind (.consume _ _) fun _ => .andThen (lowerBlockItems_echoes items h.2.1) fun _ =>
      .terminal _

theorem lowerStmts_echoes (stmts : List Stmt)
    (h : ρ.Clears (stmtsOutline (mapStmts unplaced stmts))) :
    Echoes ρ (stmtsRegisters (mapStmts unplaced stmts)) id (lowerStmts stmts)
      (lowerStmts (mapStmts unplaced stmts)) := by
  cases stmts with
  | nil => exact .done ()
  | cons s stmts =>
    simp only [mapStmts, stmtsOutline, Residue.clears_round] at h
    exact .append (s.lower_echoes h.1) fun _ => lowerStmts_echoes stmts h.2

theorem lowerCases_echoes (cases : List Case) (h : ρ.Clears (casesOutline (mapCases unplaced cases)))
    (ty : Ty) (code : List Instruction) (endLabel : Label) :
    Echoes ρ (casesRegisters (mapCases unplaced cases)) id (lowerCases ty code endLabel cases)
      (lowerCases ty (code.map (Instruction.shift ρ.labels)) (endLabel.shift ρ.labels)
        (mapCases unplaced cases)) := by
  cases cases with
  | nil => exact .done ()
  | cons c cases =>
    obtain ⟨keyword, label, colon, body⟩ := c
    simp only [mapCases, casesOutline, Residue.clears_round, Residue.clears_append] at h
    obtain ⟨⟨-, hlabel, -, hbody⟩, hmore⟩ := h
    exact .append (lowerCase_echoes (lowerStmts_echoes body hbody) hlabel ty code endLabel keyword
      colon) fun _ => lowerCases_echoes cases hmore ty code endLabel

theorem lowerBlockItems_echoes (items : List BlockItem)
    (h : ρ.Clears (blockOutline (mapBlock unplaced items))) :
    Echoes ρ (blockRegisters (mapBlock unplaced items)) id (lowerBlockItems items)
      (lowerBlockItems (mapBlock unplaced items)) := by
  cases items with
  | nil => exact .done ()
  | cons item items =>
    simp only [mapBlock, blockOutline, Residue.clears_round] at h
    exact .append (item.lower_echoes h.1) fun _ => lowerBlockItems_echoes items h.2

theorem BlockItem.lower_echoes (item : BlockItem) (h : ρ.Clears (item.map unplaced).outline) :
    Echoes ρ (item.map unplaced).registers id item.lower (item.map unplaced).lower := by
  cases item with
  | declaration d => exact d.lower_echoes h
  | statement s => exact s.lower_echoes h
  | skipped token => exact .skip _ _ _

end

/-! ## Procedures -/

theorem Param.lower_echoes (p : Param) : Echoes ρ [] id p.lower (p.map unplaced).lower := by
  refine .bind p.ty.lower_echoes fun ty => .bind (.terminal _) fun _ => ?_
  simp only [Param.map, Terminal.mapText_unplaced, Terminal.value?_unplaced]
  cases p.name.value? with
  | none => exact .done _
  | some name =>
    exact .bind (.discard (.withScopes (Residue.allows_declareLocal name .var ty))) fun _ => .done _

theorem registerSignature_echoes (label : String) (signature : Signature) :
    Echoes ρ [] id (registerSignature label signature) (registerSignature label signature) := by
  refine .of_silent (fun _ => faultless_nil) fun env env' henv => ?_
  refine ⟨faultless_nil, .quiet rfl rfl, rfl, rfl, { henv with signatures := ?_ }⟩
  intro other hother
  change (env'.signatures.register label signature).get? other =
    (env.signatures.register label signature).get? other
  by_cases hlabel : other = label
  · rw [hlabel, Signatures.get?_register_self, Signatures.get?_register_self]
  · rw [Signatures.get?_register_of_ne _ _ hlabel, Signatures.get?_register_of_ne _ _ hlabel,
      henv.signatures other hother]

theorem openProcedure_echoes {name : Terminal} (h : ρ.Clears (name.map unplaced).outline)
    (keyword : Token) : Echoes ρ [] id (openProcedure keyword name)
      (openProcedure (unplaced.token keyword) (name.map unplaced)) := by
  cases name with
  | missing kind next => exact .bind (.consume _ _) fun _ => .missing_bind _ _ _ _ _
  | read token =>
    have hname : ρ.hides token.value = false := by
      simpa [Terminal.map, Terminal.outline] using h
    refine .bind (.consume _ _) fun _ => .bind (.terminal _) fun _ =>
      .bind (.discard (.withScopes (Residue.allows_declareProcedure _))) fun _ => .withScopes ?_
    exact fun st st' hst => hst.enterProcedure hname

theorem emitArguments_echoes (count : Nat) :
    Echoes ρ [] id (emitAll (storeArguments count)) (emitAll (storeArguments count)) := by
  have hstores : (storeArguments count).map (Instruction.shift ρ.labels) = storeArguments count :=
    List.map_map
  have h := Echoes.emitAll (ρ := ρ) (storeArguments count)
  rwa [hstores] at h

theorem closeProcedure_echoes : Echoes ρ [] id closeProcedure closeProcedure := by
  have hclose : ρ.Allows fun st : ScopeStack =>
      (ScopeStack.slotCount st.exitProcedure.1, st.exitProcedure.2) :=
    fun st st' hst => hst.exitProcedure
  exact .withScopes hclose

section Bodies

variable {body body' : Lowering Unit} {rs : List Register}

theorem lowerProcedureBody_echoes (hbody : Echoes ρ rs id body body') (label : String)
    (name opening : Terminal) (params : Option (Separated Param)) (closing brace : Terminal)
    (closingBrace : Terminal) : Echoes ρ rs id
      (lowerProcedureBody label name opening params closing brace body closingBrace)
      (lowerProcedureBody label (name.map unplaced) (opening.map unplaced)
        (params.map (Separated.map unplaced (Param.map unplaced))) (closing.map unplaced)
        (brace.map unplaced) body' (closingBrace.map unplaced)) := by
  unfold lowerProcedureBody
  rw [Terminal.valueD_unplaced]
  exact .bind (.terminal _) fun _ =>
    .bind (Separated.lower?_quiet fun p _ => p.lower_echoes) fun types =>
    .bind (.terminal _) fun _ =>
    .bind (registerSignature_echoes label ⟨name.valueD, types, .undefined⟩) fun _ =>
    .bind (emitArguments_echoes types.length) fun _ => .bind (.terminal _) fun _ =>
    .andThen hbody fun _ => .terminal _

theorem lowerProcedure_echoes (hbody : Echoes ρ rs id body body') {name : Terminal}
    (h : ρ.Clears (name.map unplaced).outline) (keyword : Token) (opening : Terminal)
    (params : Option (Separated Param)) (closing brace : Terminal) (closingBrace : Terminal) :
    Echoes ρ rs id (lowerProcedure keyword name opening params closing brace body closingBrace)
      (lowerProcedure (unplaced.token keyword) (name.map unplaced) (opening.map unplaced)
        (params.map (Separated.map unplaced (Param.map unplaced))) (closing.map unplaced)
        (brace.map unplaced) body' (closingBrace.map unplaced)) :=
  .bind (openProcedure_echoes h keyword) fun label =>
    .andThen (.captured (lowerProcedureBody_echoes hbody label name opening params closing brace
      closingBrace)) fun found =>
    .bind closeProcedure_echoes fun frame =>
    .bind (.emitAll [.labelled (.named label) (.enter frame)]) fun _ =>
    .bind (.emitAll found.2) fun _ => .bind (.emit .leave) fun _ => .emit .ret

theorem lowerNested_echoes (hbody : Echoes ρ rs id body body') :
    Echoes ρ rs id (lowerNested body) (lowerNested body') :=
  .bind .freshLabel fun skipLabel => .bind (.emit (.jump skipLabel)) fun _ =>
    .andThen hbody fun _ => .land skipLabel

end Bodies

mutual

theorem Procedure.lower_echoes (p : Procedure) (h : ρ.Clears (p.map unplaced).outline) :
    Echoes ρ (p.map unplaced).registers id p.lower (p.map unplaced).lower := by
  obtain ⟨keyword, name, opening, params, closing, brace, body, closingBrace⟩ := p
  simp only [Procedure.map, Procedure.outline, Residue.clears_append,
    Terminal.mapText_unplaced] at h ⊢
  obtain ⟨-, hname, -, -, -, -, hbody, -⟩ := h
  exact lowerProcedure_echoes (lowerBodyItems_echoes body hbody) hname keyword opening params closing
    brace closingBrace

theorem lowerBodyItems_echoes (items : List BodyItem)
    (h : ρ.Clears (bodyOutline (mapBody unplaced items))) :
    Echoes ρ (bodyRegisters (mapBody unplaced items)) id (lowerBodyItems items)
      (lowerBodyItems (mapBody unplaced items)) := by
  cases items with
  | nil => exact .done ()
  | cons item items =>
    simp only [mapBody, bodyOutline, Residue.clears_round] at h
    exact .append (item.lower_echoes h.1) fun _ => lowerBodyItems_echoes items h.2

theorem BodyItem.lower_echoes (item : BodyItem) (h : ρ.Clears (item.map unplaced).outline) :
    Echoes ρ (item.map unplaced).registers id item.lower (item.map unplaced).lower := by
  cases item with
  | declaration d => exact d.lower_echoes h
  | statement s => exact s.lower_echoes h
  | nested p => exact lowerNested_echoes (p.lower_echoes h)
  | skipped token => exact .skip _ _ _

end

/-! ## Programs -/

theorem declareExternal_echoes (name : Terminal) (kind : SymbolKind) (ty : Ty) :
    Echoes ρ [] id (declareExternal name kind ty) (declareExternal (name.map unplaced) kind ty) := by
  unfold declareExternal
  rw [Terminal.value?_unplaced]
  cases name.value? with
  | none => exact .done ()
  | some name => exact .discard (.withScopes (Residue.allows_declareExternal name kind ty))

theorem lowerExternalParams_echoes (name : Terminal) (params : Option ExternalParams) :
    Echoes ρ [] id (lowerExternalParams name params) (lowerExternalParams (name.map unplaced)
      (params.map (ExternalParams.map unplaced))) := by
  cases params with
  | none => exact .done ()
  | some params =>
    refine .bind (.consume _ _) fun _ =>
      .bind (Separated.lower?_quiet fun spec _ => ScalarSpec.lower_echoes spec) fun types =>
      .bind (.terminal _) fun _ => ?_
    rw [Terminal.valueD_unplaced]
    exact registerSignature_echoes name.valueD ⟨name.valueD, types, .undefined⟩

theorem External.lower_echoes (e : External) : Echoes ρ [] id e.lower (e.map unplaced).lower := by
  cases e with
  | vars keyword spec names semicolon =>
    simp only [External.map, funext Terminal.mapText_unplaced]
    refine .bind (.consume _ _) fun _ => .bind spec.lower_echoes fun ty =>
      .bind (.discard (Separated.lower_quiet ?_)) fun _ => .terminal _
    exact fun name _ => .bind (.terminal name) fun _ => declareExternal_echoes name .var ty
  | const keyword constant spec name semicolon =>
    simp only [External.map, Terminal.mapText_unplaced]
    exact .bind (.consume _ _) fun _ => .bind (.consume _ _) fun _ =>
      .bind spec.lower_echoes fun ty => .bind (.terminal _) fun _ =>
      .bind (declareExternal_echoes name .const ty) fun _ => .terminal _
  | procedure keyword mark name params semicolon =>
    simp only [External.map, Terminal.mapText_unplaced]
    exact .bind (.consume _ _) fun _ => .bind (.consume _ _) fun _ => .bind (.terminal _) fun _ =>
      .bind (declareExternal_echoes name .procedure .undefined) fun _ =>
      .bind (lowerExternalParams_echoes name params) fun _ => .terminal _
  | missing keyword next => exact .bind (.consume _ _) fun _ => .refuseBefore _ _ _ _

theorem ProgramItem.lower_echoes (item : ProgramItem) (h : ρ.Clears (item.map unplaced).outline) :
    Echoes ρ (item.map unplaced).registers id item.lower (item.map unplaced).lower := by
  cases item with
  | declaration d => exact d.lower_echoes h
  | procedure p => exact p.lower_echoes h
  | external e => exact e.lower_echoes
  | skipped token => exact .skip _ _ _

theorem lowerProgramItems_echoes (items : List ProgramItem)
    (h : ∀ item ∈ items, ρ.Clears (item.map unplaced).outline) :
    Echoes ρ ((items.map (ProgramItem.map unplaced)).flatMap ProgramItem.registers) id
      (lowerProgramItems items) (lowerProgramItems (items.map (ProgramItem.map unplaced))) := by
  induction items with
  | nil => exact .done ()
  | cons item items ih =>
    obtain ⟨hitem, hmore⟩ := List.forall_mem_cons.mp h
    exact .append (item.lower_echoes hitem) fun _ => ih hmore

end SlotLang
