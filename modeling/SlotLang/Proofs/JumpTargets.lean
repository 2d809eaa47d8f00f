import SlotLang.Proofs.Labels

/-!
# Every jump has one target

The code of every statement, procedure and program is a fragment: a phrase that draws labels lands
each of them once, in its own code, also where faults were found in it.  Together with what the
labels look like in a listing this makes every jump of a listing arrive at one instruction.
-/

namespace SlotLang

open Lowering

/-! ## Statements without statements inside -/

theorem checkAssignable_straight (target : Option Resolved) : Straight (checkAssignable target) := by
  cases target with
  | none => exact .pure ()
  | some target => exact .check _

theorem storeChecked_straight (target : Option Resolved) (ty : Ty) :
    Straight (storeChecked target ty) := by
  cases target with
  | none => exact .pure ()
  | some target => exact .bind (.check _) fun _ => .store target

theorem lowerAssign_straight (d : Designator) (becomes : Token) (value : Expr)
    (semicolon : Terminal) : Straight (lowerAssign d becomes value semicolon) :=
  .bind d.lowerTarget_straight fun target => .bind (.consume _) fun _ =>
    .bind (checkAssignable_straight target) fun _ => .bind value.lower_straight fun ty =>
      .bind (.terminal _) fun _ => storeChecked_straight target ty

theorem emitCall_straight (target : Resolved) (arguments : List Ty) :
    Straight (emitCall target arguments) := by
  unfold emitCall
  split
  · exact .refuse _
  · refine .bind .env fun here => ?_
    dsimp only
    split
    · exact .bind (.check _) fun _ => .emit rfl
    · exact .emit rfl

theorem lowerCall_straight (callee : Designator) (opening : Token)
    (arguments : Option (Separated Expr)) (closing semicolon : Terminal) :
    Straight (lowerCall callee opening arguments closing semicolon) := by
  refine .bind callee.lowerTarget_straight fun target => .bind (.consume _) fun _ =>
    .bind (Separated.lower?_straight Expr.lower_straight arguments) fun types =>
      .bind (.terminal _) fun _ => .bind (.terminal _) fun _ => ?_
  cases target with
  | none => exact .pure ()
  | some target => exact emitCall_straight target types

theorem lowerRead_straight (keyword : Token) (d : Designator) (semicolon : Terminal) :
    Straight (lowerRead keyword d semicolon) := by
  refine .bind (.consume _) fun _ => .bind d.lowerTarget_straight fun target =>
    .bind (.terminal _) fun _ => ?_
  cases target with
  | none => exact .pure ()
  | some target =>
    exact .bind (.check _) fun _ => .bind (.emit rfl) fun _ => .store target

theorem lowerWrite_straight (keyword : Token) (operands : Separated Expr) (semicolon : Terminal) :
    Straight (lowerWrite keyword operands semicolon) := by
  have hoperand : ∀ operand, Straight (lowerWriteOperand operand) :=
    fun operand => .bind operand.lower_straight fun _ => .bind (.check _) fun _ => .emit rfl
  exact .bind (.consume _) fun _ => .bind (.discard (Separated.lower_straight hoperand operands))
    fun _ => .terminal _

theorem Assignment.lower_straight (a : Assignment) : Straight a.lower := by
  cases a with
  | complete d becomes value =>
    exact .bind d.lowerTarget_straight fun target => .bind (.consume _) fun _ =>
      .bind (checkAssignable_straight target) fun _ => .bind value.lower_straight fun ty =>
        storeChecked_straight target ty
  | broken d next =>
    exact .bind (.discard d.lowerTarget_straight) fun _ => .refuseBefore _ _

theorem Condition.lower_straight (c : Condition) : Straight c.lower :=
  .bind (.terminal _) fun _ => .bind c.test.lower_straight fun _ => .bind (.terminal _) fun _ =>
    .check _

theorem lowerChoose_lands (d : Designator) (becomes : Token) (guard : Expr) (question : Token)
    (first : Expr) (colon : Terminal) (second : Expr) (semicolon : Terminal) :
    Lands [] [] (lowerChoose d becomes guard question first colon second semicolon) := by
  refine .straight_bind d.lowerTarget_straight fun target => .straight_bind (.consume _) fun _ =>
    .straight_bind (checkAssignable_straight target) fun _ =>
    .straight_bind guard.lower_straight fun _ => .straight_bind (.consume _) fun _ =>
    .straight_bind (.check _) fun _ => .freshLabel_bind fun other => ⟨[other], ?_, .refl _⟩
  refine .jump_bind rfl (by simp) fun _ =>
    .freshLabel_bind fun last => ⟨[other, last], ?_, .swap _ _ _⟩
  refine .straight_bind first.lower_straight fun firstTy => .straight_bind (.terminal _) fun _ =>
    .straight_bind (storeChecked_straight target firstTy) fun _ => ?_
  refine .jump_bind rfl (by simp) fun _ => .bind (.land other) fun _ => ?_
  exact .straight_bind second.lower_straight fun secondTy => .straight_bind (.terminal _) fun _ =>
    .straight_bind (storeChecked_straight target secondTy) fun _ => .land last

/-! ## Branches and loops -/

theorem lowerBranch_lands {body alternative : Lowering Unit} (hbody : Lands [] [] body)
    (halternative : Lands [] [] alternative) (keyword : Token) (condition : Condition) :
    Lands [] [] (lowerBranch keyword condition body alternative) := by
  refine .straight_bind (.consume _) fun _ => .straight_bind condition.lower_straight fun _ =>
    .freshLabel_bind fun other => ⟨[other], ?_, .refl _⟩
  refine .jump_bind rfl (by simp) fun _ => .inner_bind hbody fun _ =>
    .freshLabel_bind fun last => ⟨[other, last], ?_, .swap _ _ _⟩
  exact .jump_bind rfl (by simp) fun _ => .bind (.land other) fun _ =>
    .inner_bind halternative fun _ => .land last

theorem lowerWhile_lands {body : Lowering Unit} (hbody : Lands [] [] body) (keyword : Token)
    (condition : Condition) : Lands [] [] (lowerWhile keyword condition body) := by
  refine .straight_bind (.consume _) fun _ => .freshLabel_bind fun first => ⟨[first], ?_, .refl _⟩
  refine .freshLabel_bind fun last => ⟨[first, last], ?_, .swap _ _ _⟩
  exact .bind (.land first) fun _ => .straight_bind condition.lower_straight fun _ =>
    .jump_bind rfl (by simp) fun _ => .inner_bind hbody fun _ => .jump_bind rfl (by simp) fun _ =>
    .land last

theorem lowerFor_lands {body : Lowering Unit} (hbody : Lands [] [] body) (keyword : Token)
    (opening : Terminal) (init : Assignment) (afterInit : Terminal) (test : Expr)
    (afterTest : Terminal) (step : Assignment) (closing : Terminal) :
    Lands [] [] (lowerFor keyword opening init afterInit test afterTest step closing body) := by
  refine .straight_bind (.consume _) fun _ => .straight_bind (.terminal _) fun _ =>
    .straight_bind init.lower_straight fun _ => .straight_bind (.terminal _) fun _ =>
    .freshLabel_bind fun back => ⟨[back], ?_, .refl _⟩
  refine .jump_bind rfl (by simp) fun _ =>
    .freshLabel_bind fun first => ⟨[first, back], ?_, .refl _⟩
  -- What is due is kept in the order of the landings, not in that of the draws.
  refine .freshLabel_bind fun last => ⟨[first, back, last], ?_, ?_⟩
  · exact .bind (.land first) fun _ => .straight_bind test.lower_straight fun _ =>
      .straight_bind (.terminal _) fun _ => .straight_bind step.lower_straight fun _ =>
      .straight_bind (.terminal _) fun _ => .straight_bind (.check _) fun _ =>
      .jump_bind rfl (by simp) fun _ => .inner_bind hbody fun _ => .bind (.land back) fun _ =>
      .jump_bind rfl (by simp) fun _ => .land last
  · exact (List.perm_append_comm : ([first, back] ++ [last]).Perm ([last] ++ [first, back]))

/-! ## Switches -/

/-- The cases of a switch jump to its end, and the code of its subject is straight. -/
def CasesLand (cases : Ty → List Instruction → Label → Lowering Unit) : Prop :=
  ∀ ty subject exit, StraightCode subject → Lands [exit] [] (cases ty subject (.fresh exit))

theorem Straight.emitAll {code : List Instruction} (h : StraightCode code) :
    Straight (Lowering.emitAll code) := fun _ => ⟨rfl, h⟩

theorem lowerCase_lands {body : Lowering Unit} (hbody : Lands [] [] body) {subject : List Instruction}
    (hsubject : StraightCode subject) (ty : Ty) (exit : Nat) (keyword : Token) (label : Expr)
    (colon : Terminal) :
    Lands [exit] [] (lowerCase ty subject (.fresh exit) keyword label colon body) := by
  refine .straight_bind (.consume _) fun _ => .straight_bind (.emitAll hsubject) fun _ =>
    .straight_bind label.lower_straight fun _ => .straight_bind (.terminal _) fun _ =>
    .straight_bind (.check _) fun _ => .freshLabel_bind fun next => ⟨[next], ?_, .refl _⟩
  exact .straight_bind (.emit rfl) fun _ => .jump_bind rfl (by simp) fun _ =>
    .inner_bind hbody fun _ => .jump_bind rfl (by simp) fun _ => .land next

theorem lowerFallback_straight (fallback : Option (Token × Terminal)) :
    Straight (lowerFallback fallback) := by
  cases fallback with
  | none => exact .pure ()
  | some pair => exact .bind (.consume _) fun _ => .terminal _

theorem lowerSwitch_lands {cases : Ty → List Instruction → Label → Lowering Unit}
    {fallbackBody : Lowering Unit} (hcases : CasesLand cases) (hfallback : Lands [] [] fallbackBody)
    (keyword : Token) (opening : Terminal) (subject : Expr) (closing brace : Terminal)
    (fallback : Option (Token × Terminal)) (closingBrace : Terminal) :
    Lands [] [] (lowerSwitch keyword opening subject closing brace cases fallback fallbackBody
      closingBrace) := by
  refine .straight_bind (.consume _) fun _ => .straight_bind (.terminal _) fun _ =>
    .captured_bind subject.lower_straight fun ty code hcode => ?_
  refine .straight_bind (.terminal _) fun _ => .straight_bind (.terminal _) fun _ =>
    .freshLabel_bind fun last => ⟨[last], ?_, .refl _⟩
  exact .bind (hcases ty code last hcode) fun _ =>
    .straight_bind (lowerFallback_straight fallback) fun _ => .inner_bind hfallback fun _ =>
    .straight_bind (.terminal _) fun _ => .land last

/-! ## All statements -/

mutual

theorem Stmt.lower_lands : ∀ s : Stmt, Lands [] [] s.lower
  | .missing next => (Straight.refuseBefore next _).lands []
  | .broken target => (Straight.discard target.lower_straight).lands []
  | .dangling target next =>
      (Straight.bind (.discard target.lowerTarget_straight) fun _ => .refuseBefore next _).lands []
  | .assign target becomes value semicolon =>
      (lowerAssign_straight target becomes value semicolon).lands []
  | .choose target becomes guard question first colon second semicolon =>
      lowerChoose_lands target becomes guard question first colon second semicolon
  | .call callee opening arguments closing semicolon =>
      (lowerCall_straight callee opening arguments closing semicolon).lands []
  | .branch keyword condition body =>
      lowerBranch_lands body.lower_lands ((Straight.pure ()).lands []) keyword condition
  | .branchElse keyword condition body otherwise alternative =>
      lowerBranch_lands body.lower_lands
        (.straight_bind (.consume otherwise) fun _ => alternative.lower_lands) keyword condition
  | .whileLoop keyword condition body => lowerWhile_lands body.lower_lands keyword condition
  | .forLoop keyword opening init afterInit test afterTest step closing body =>
      lowerFor_lands body.lower_lands keyword opening init afterInit test afterTest step closing
  | .switch keyword opening subject closing brace cases fallback fallbackBody closingBrace =>
      lowerSwitch_lands (lowerCases_land cases) (lowerStmts_lands fallbackBody) keyword opening
        subject closing brace fallback closingBrace
  | .read keyword target semicolon => (lowerRead_straight keyword target semicolon).lands []
  | .write keyword operands semicolon => (lowerWrite_straight keyword operands semicolon).lands []
  | .block opening items closing =>
      .straight_bind (.consume opening) fun _ => .bind (lowerBlockItems_lands items) fun _ =>
        (Straight.terminal closing).lands []

theorem lowerStmts_lands : ∀ stmts : List Stmt, Lands [] [] (lowerStmts stmts)
  | [] => (Straight.pure ()).lands []
  | s :: more => .bind s.lower_lands fun _ => lowerStmts_lands more

theorem lowerCases_land : ∀ cases : List Case,
    CasesLand fun ty subject exit => lowerCases ty subject exit cases
  | [], _, _, _, _ => (Straight.pure ()).lands _
  | .mk keyword label colon body :: more, ty, subject, exit, hsubject =>
      .bind (lowerCase_lands (lowerStmts_lands body) hsubject ty exit keyword label colon)
        fun _ => lowerCases_land more ty subject exit hsubject

theorem lowerBlockItems_lands : ∀ items : List BlockItem, Lands [] [] (lowerBlockItems items)
  | [] => (Straight.pure ()).lands []
  | item :: more => .bind item.lower_lands fun _ => lowerBlockItems_lands more

theorem BlockItem.lower_lands : ∀ item : BlockItem, Lands [] [] item.lower
  | .declaration d => d.lower_straight.lands []
  | .statement s => s.lower_lands
  | .skipped token => (Straight.skip _ token).lands []

end

/-! ## Procedures and programs -/

theorem Param.lower_straight (p : Param) : Straight p.lower := by
  refine .bind p.ty.lower_straight fun ty => .bind (.terminal _) fun _ => ?_
  split
  · exact .bind (.discard (.withScopes _)) fun _ => .pure ty
  · exact .pure ty

theorem storeArguments_straight (count : Nat) : StraightCode (storeArguments count) := by
  intro i hi
  obtain ⟨offset, -, rfl⟩ := List.mem_map.mp hi
  exact ⟨.store 0 offset, rfl, rfl⟩

theorem registerSignature_straight (label : String) (signature : Signature) :
    Straight (registerSignature label signature) :=
  .modifyEnv fun _ => rfl

theorem lowerProcedureBody_lands {body : Lowering Unit} (hbody : Lands [] [] body) (label : String)
    (name opening : Terminal) (params : Option (Separated Param))
    (closing brace closingBrace : Terminal) :
    Lands [] [] (lowerProcedureBody label name opening params closing brace body closingBrace) :=
  .straight_bind (.terminal _) fun _ =>
    .straight_bind (Separated.lower?_straight Param.lower_straight params) fun types =>
    .straight_bind (.terminal _) fun _ => .straight_bind (registerSignature_straight _ _) fun _ =>
    .straight_bind (.emitAll (storeArguments_straight types.length)) fun _ =>
    .straight_bind (.terminal _) fun _ => .bind hbody fun _ => (Straight.terminal _).lands []

/-- The code of a procedure is that of its body, between instructions that draw no labels. -/
theorem Lands.procedure {x : Lowering Unit} (hx : Lands [] [] x) {label : String}
    (hlabel : IsProcedureLabel label) :
    Lands [] [] (do
      let (_, code) ← captured x
      let frame ← closeProcedure
      emitAll [.labelled (.named label) (.enter frame)]
      emitAll code
      emit .leave
      emit .ret) := by
  intro env hknown
  have hbody := hx env hknown
  exact (LandsIn.enter hlabel _ env.nextLabel).append (hbody.append (.leave _))

theorem lowerProcedure_lands {body : Lowering Unit} (hbody : Lands [] [] body) (keyword : Token)
    (name opening : Terminal) (params : Option (Separated Param))
    (closing brace closingBrace : Terminal) (hname : name.valueD = "" ∨ IsWord name.valueD) :
    Lands [] [] (lowerProcedure keyword name opening params closing brace body closingBrace) := by
  have hopen : Straight (openProcedure keyword name) :=
    .bind (.consume _) fun _ => .bind (.terminal _) fun _ =>
      .bind (.discard (.withScopes _)) fun _ => .withScopes _
  refine .straight_bind_value hopen fun env => ?_
  exact (lowerProcedureBody_lands hbody _ name opening params closing brace closingBrace).procedure
    ⟨_, name.valueD, rfl, hname⟩

theorem lowerNested_lands {procedure : Lowering Unit} (h : Lands [] [] procedure) :
    Lands [] [] (lowerNested procedure) :=
  .freshLabel_bind fun past => ⟨[past], .jump_bind rfl (by simp) fun _ =>
    .inner_bind h fun _ => .land past, .refl _⟩

/-- The name of a procedure as it may come from a text: a word, or nothing where it is missing. -/
def IsProcedureName (name : String) : Prop := name = "" ∨ IsWord name

mutual

theorem Procedure.lower_lands : ∀ p : Procedure, p.Named IsProcedureName → Lands [] [] p.lower
  | .mk keyword name opening params closing brace body closingBrace, h =>
      lowerProcedure_lands (lowerBodyItems_lands body h.2) keyword name opening params closing brace
        closingBrace h.1

theorem lowerBodyItems_lands : ∀ items : List BodyItem, bodyNamed IsProcedureName items →
    Lands [] [] (lowerBodyItems items)
  | [], _ => (Straight.pure ()).lands []
  | item :: more, h => .bind (item.lower_lands h.1) fun _ => lowerBodyItems_lands more h.2

theorem BodyItem.lower_lands : ∀ item : BodyItem, item.Named IsProcedureName →
    Lands [] [] item.lower
  | .declaration d, _ => d.lower_straight.lands []
  | .statement s, _ => s.lower_lands
  | .nested p, h => lowerNested_lands (p.lower_lands h)
  | .skipped token, _ => (Straight.skip _ token).lands []

end

theorem declareExternal_straight (name : Terminal) (kind : SymbolKind) (ty : Ty) :
    Straight (declareExternal name kind ty) := by
  unfold declareExternal
  split
  · exact .discard (.withScopes _)
  · exact .pure ()

theorem lowerExternalParams_straight (name : Terminal) (params : Option ExternalParams) :
    Straight (lowerExternalParams name params) := by
  cases params with
  | none => exact .pure ()
  | some params =>
    exact .bind (.consume _) fun _ =>
      .bind (Separated.lower?_straight ScalarSpec.lower_straight _) fun _ =>
      .bind (.terminal _) fun _ => registerSignature_straight _ _

theorem External.lower_straight (e : External) : Straight e.lower := by
  cases e with
  | vars keyword spec names semicolon =>
    have hname : ∀ ty, ∀ name : Terminal, Straight (do
        name.lower
        declareExternal name .var ty) :=
      fun ty name => .bind (.terminal _) fun _ => declareExternal_straight name .var ty
    exact .bind (.consume _) fun _ => .bind spec.lower_straight fun ty =>
      .bind (.discard (Separated.lower_straight (hname ty) names)) fun _ => .terminal _
  | const keyword constant spec name semicolon =>
    exact .bind (.consume _) fun _ => .bind (.consume _) fun _ =>
      .bind spec.lower_straight fun ty => .bind (.terminal _) fun _ =>
      .bind (declareExternal_straight name .const ty) fun _ => .terminal _
  | procedure keyword mark name params semicolon =>
    exact .bind (.consume _) fun _ => .bind (.consume _) fun _ => .bind (.terminal _) fun _ =>
      .bind (declareExternal_straight name .procedure .undefined) fun _ =>
      .bind (lowerExternalParams_straight name params) fun _ => .terminal _
  | missing keyword next => exact .bind (.consume _) fun _ => .refuseBefore _ _

theorem ProgramItem.lower_lands (item : ProgramItem) (h : item.Named IsProcedureName) :
    Lands [] [] item.lower := by
  cases item with
  | declaration d => exact d.lower_straight.lands []
  | procedure p => exact p.lower_lands h
  | external e => exact e.lower_straight.lands []
  | skipped token => exact (Straight.skip _ token).lands []

theorem lowerProgramItems_lands (items : List ProgramItem)
    (h : ∀ item ∈ items, item.Named IsProcedureName) : Lands [] [] (lowerProgramItems items) := by
  induction items with
  | nil => exact (Straight.pure ()).lands []
  | cons item more ih =>
    exact .bind (item.lower_lands (h item List.mem_cons_self)) fun _ =>
      ih fun other hother => h other (List.mem_cons_of_mem _ hother)

theorem Program.lower_lands (p : Program) (h : ∀ item ∈ p.items, item.Named IsProcedureName) :
    Lands [] [] p.lower := by
  refine .straight_bind (.terminal _) fun _ => .straight_bind (.terminal _) fun _ =>
    .straight_bind (.terminal _) fun _ => .straight_bind (.modifyEnv fun _ => rfl) fun _ =>
    .bind (lowerProgramItems_lands p.items h) fun _ => .straight_bind (.terminal _) fun _ =>
    .straight_bind .env fun env => ?_
  have hwarn : ∀ message, Straight (warn message) := fun _ _ => ⟨rfl, .nil⟩
  split
  · exact .straight_bind (hwarn _) fun _ => (Straight.terminal _).lands []
  · exact (Straight.terminal _).lands []

/-! ## Labels in a listing

Two labels may be different and still be written alike.  A label of the supply is written `L$` and a
number, a label of a procedure is a list of names with `$` between them, and its last part is never
a number. -/

/-- The characters behind the last `$` of a text, the last one first. -/
def lastPart (text : String) : List Char := text.toList.reverse.takeWhile (· ≠ '$')

theorem lastPart_of_append {text : String} {front back : List Char}
    (htext : text.toList = front ++ back) (hfront : front = [] ∨ ∃ more, front = more ++ ['$'])
    (hback : '$' ∉ back) : lastPart text = back.reverse := by
  have hkept : ∀ c ∈ back.reverse, decide (c ≠ '$') = true := by
    intro c hc
    have hne : c ≠ '$' := fun heq => hback (heq ▸ List.mem_reverse.mp hc)
    simpa using hne
  rw [lastPart, htext, List.reverse_append, List.takeWhile_append_of_pos hkept]
  rcases hfront with rfl | ⟨more, rfl⟩
  · simp
  · simp

theorem lastPart_fresh (n : Nat) :
    lastPart (Label.fresh n).text = (Nat.toDigits 10 n).reverse := by
  have htext : (Label.fresh n).text.toList = ['L', '$'] ++ Nat.toDigits 10 n := by
    rw [Label.text, String.toList_append, ← Nat.toList_repr]
    rfl
  refine lastPart_of_append htext (.inr ⟨['L'], rfl⟩) ?_
  intro hmem
  have hdigit := Nat.isDigit_of_mem_toDigits (by omega) (by omega) hmem
  exact absurd hdigit (by decide)

theorem joinNames_toList (names : List String) (name : String) :
    ∃ front, (ScopeStack.joinNames (names ++ [name])).toList = front ++ name.toList ∧
      (front = [] ∨ ∃ more, front = more ++ ['$']) := by
  induction names with
  | nil => exact ⟨[], by simp [ScopeStack.joinNames], .inl rfl⟩
  | cons first names ih =>
    obtain ⟨front, htext, hfront⟩ := ih
    refine ⟨first.toList ++ ['$'] ++ front, ?_, .inr ?_⟩
    · rw [ScopeStack.joinNames] at htext ⊢
      rw [List.cons_append, String.intercalate_cons_of_ne_nil (by simp), String.toList_append,
        htext, String.toList_append, List.append_assoc _ front]
      rfl
    · rcases hfront with rfl | ⟨more, rfl⟩
      · exact ⟨first.toList, by simp⟩
      · exact ⟨first.toList ++ ['$'] ++ more, by simp⟩

theorem IsWord.dollar_not_mem {text : String} (h : IsWord text) : '$' ∉ text.toList :=
  h.not_mem (by decide) (by decide)

theorem IsProcedureLabel.ne_fresh {label : String} (h : IsProcedureLabel label) (n : Nat) :
    label ≠ (Label.fresh n).text := by
  intro heq
  obtain ⟨names, name, rfl, hname⟩ := h
  obtain ⟨front, htext, hfront⟩ := joinNames_toList names name
  have hdollar : '$' ∉ name.toList := by
    rcases hname with rfl | hword
    · simp
    · exact hword.dollar_not_mem
  -- Behind the last dollar sign a procedure has its own name, and a drawn label its number.
  have hdigits : name.toList = Nat.toDigits 10 n := by
    have hlast := lastPart_of_append htext hfront hdollar
    rw [heq, lastPart_fresh] at hlast
    exact (List.reverse_inj.mp hlast).symm
  rcases hname with rfl | ⟨c, rest, hchars, hstart, -⟩
  · exact Nat.toDigits_ne_nil hdigits.symm
  · have hdigit : c.isDigit = true := by
      refine Nat.isDigit_of_mem_toDigits (by omega) (by omega) (n := n) (b := 10) ?_
      rw [← hdigits, hchars]
      exact List.mem_cons_self
    simp [LexemeRule.isDigit_of_isWordStart hstart] at hdigit

theorem Label.fresh_text_inj {m n : Nat} : (fresh m).text = (fresh n).text ↔ m = n := by
  constructor
  · intro h
    have hlast := congrArg lastPart h
    rw [lastPart_fresh, lastPart_fresh, List.reverse_inj] at hlast
    have hvalue := congrArg (fun digits => Nat.ofDigitChars 10 digits 0) hlast
    simpa [Nat.ofDigitChars_toDigits] using hvalue
  · rintro rfl
    rfl

/-- The instruction carries a label that is written like this. -/
def Instruction.carries (i : Instruction) (text : String) : Bool :=
  i.label.any fun label => label.text = text

/-- Labels and jumps as a reader of the listing sees them, who has only the texts of the labels: of
the labels that were drawn each is carried by one instruction, and jumps go to such labels. -/
structure Linked (drawn : Nat) (listing : List Instruction) : Prop where
  jumps : ∀ i ∈ listing, ∀ label, i.op.target? = some label → ∃ n < drawn, label = .fresh n
  carried : ∀ n, listing.countP (·.carries (Label.fresh n).text) = if n < drawn then 1 else 0
  landings : ∀ i ∈ listing, ∀ n, i.carries (Label.fresh n).text = true → i = .landing (.fresh n)
  procedures : ∀ i ∈ listing, ∀ text, i.label = some (.named text) → IsProcedureLabel text

theorem Instruction.Wired.label_eq_fresh {reach : Nat → Prop} {i : Instruction} (h : i.Wired reach)
    (n : Nat) : i.label = some (.fresh n) ↔ i = Instruction.landing (.fresh n) := by
  cases h with
  | straight h => simp [Instruction.plain, Instruction.landing, Instruction.labelled]
  | jump h hreach => simp [Instruction.plain, Instruction.landing, Instruction.labelled]
  | landing m => simp [Instruction.landing, Instruction.labelled]
  | enter h size => simp [Instruction.landing, Instruction.labelled]

theorem Instruction.Wired.carries_fresh {reach : Nat → Prop} {i : Instruction} (h : i.Wired reach)
    (n : Nat) : i.carries (Label.fresh n).text = true ↔ i.label = some (.fresh n) := by
  cases h with
  | straight h => simp [Instruction.carries, Instruction.plain]
  | jump h hreach => simp [Instruction.carries, Instruction.plain]
  | landing m =>
    simp [Instruction.carries, Instruction.landing, Instruction.labelled, Label.fresh_text_inj]
  | @enter label h size =>
    have hne : (Label.named label).text ≠ (Label.fresh n).text := h.ne_fresh n
    simp [Instruction.carries, Instruction.labelled, hne]

theorem Instruction.Wired.exists_target {reach : Nat → Prop} {i : Instruction} (h : i.Wired reach)
    {label : Label} (hlabel : i.op.target? = some label) : ∃ n, reach n ∧ label = .fresh n := by
  cases h with
  | straight hop => simp [Instruction.plain, hop] at hlabel
  | @jump op n hop hreach =>
    have heq : some (.fresh n) = some label := hop.symm.trans hlabel
    cases heq
    exact ⟨n, hreach, rfl⟩
  | landing n => simp [Instruction.landing, Instruction.labelled, Op.target?] at hlabel
  | enter hname size => simp [Instruction.labelled, Op.target?] at hlabel

theorem LandsIn.linked {drawn : Nat} {code : List Instruction} (h : LandsIn [] [] 0 drawn code) :
    Linked drawn code where
  jumps i hi label hlabel := by
    obtain ⟨n, hreach, rfl⟩ := (h.wired i hi).exists_target hlabel
    exact ⟨n, by simpa using hreach, rfl⟩
  carried n := by
    have hcount : code.countP (·.carries (Label.fresh n).text) = SlotLang.landed n code := by
      refine List.countP_congr fun i hi => ?_
      rw [(h.wired i hi).carries_fresh n, decide_eq_true_iff]
    rw [hcount, h.landed n]
    simp
  landings i hi n hcarries :=
    ((h.wired i hi).label_eq_fresh n).mp (((h.wired i hi).carries_fresh n).mp hcarries)
  procedures i hi text hlabel := by
    cases h.wired i hi with
    | straight hop => simp [Instruction.plain] at hlabel
    | jump hop hreach => simp [Instruction.plain] at hlabel
    | landing n => simp [Instruction.landing, Instruction.labelled] at hlabel
    | enter hname size =>
      cases hlabel
      exact hname

/-- A header carries no labels and has no jumps. -/
theorem Linked.header_append {drawn : Nat} {code : List Instruction} (h : Linked drawn code)
    (globals externals : Scope) : Linked drawn (header globals externals ++ code) := by
  have hheader : ∀ i ∈ header globals externals, i.label = none ∧ i.op.target? = none := by
    intro i hi
    obtain ⟨d, -, rfl⟩ := List.mem_map.mp hi
    exact ⟨rfl, rfl⟩
  refine ⟨?_, ?_, ?_, ?_⟩
  · intro i hi label hlabel
    rcases List.mem_append.mp hi with hi | hi
    · simp [(hheader i hi).2] at hlabel
    · exact h.jumps i hi label hlabel
  · intro n
    have hnone : (header globals externals).countP (·.carries (Label.fresh n).text) = 0 := by
      rw [List.countP_eq_zero]
      intro i hi
      simp [Instruction.carries, (hheader i hi).1]
    rw [List.countP_append, hnone, Nat.zero_add, h.carried n]
  · intro i hi n hcarries
    rcases List.mem_append.mp hi with hi | hi
    · simp [Instruction.carries, (hheader i hi).1] at hcarries
    · exact h.landings i hi n hcarries
  · intro i hi text hlabel
    rcases List.mem_append.mp hi with hi | hi
    · simp [(hheader i hi).1] at hlabel
    · exact h.procedures i hi text hlabel

/-- The code of every scanned text is linked, whatever faults it has. -/
theorem outcome_linked {source file : String} {tokens : List Token}
    (hscan : scan source file = .ok tokens) :
    Linked (Window.ofTokens tokens file).outcome.env.nextLabel
      (Window.ofTokens tokens file).outcome.code := by
  have hnames : (Window.ofTokens tokens file).Names IsProcedureName :=
    fun t ht hkind => .inr (scan_names hscan t ht hkind)
  have hlands := Program.lower_lands _
    (Window.readProgram_named .full (.inl rfl) (Window.ofTokens tokens file).budget _ hnames)
  exact (hlands (.start (Window.ofTokens tokens file).ahead) (by simp)).linked

theorem compile_linked {source file : String} {minDistance : Nat} {c : Compilation}
    (hcompile : compile source file minDistance = .ok c) : ∃ drawn, Linked drawn c.listing := by
  obtain ⟨tokens, hscan, rfl⟩ := exists_tokens_of_compile hcompile
  rw [compileTokens, compileWindow_eq]
  exact ⟨_, (outcome_linked hscan).header_append _ _⟩

/-- Every jump of a listing has exactly one target, also if errors were found: the label that it
names is carried by one instruction, an empty one.  Of the labels that were drawn none is landed
twice or not at all, none is like the label of a procedure, and none is left pending. -/
theorem jump_targets_closed {source file : String} {tokens : List Token}
    (hscan : scan source file = .ok tokens) (minDistance : Nat) :
    let s := (Session.start .full (.ofTokens tokens file) minDistance).program
    compile source file minDistance = .ok s.finish ∧
      (∀ i ∈ s.finish.listing, ∀ label, i.op = .jump label ∨ i.op = .jumpUnless label →
        s.finish.listing.countP (·.carries label.text) = 1 ∧
          ∀ j ∈ s.finish.listing, j.carries label.text = true → j.op = .nop) ∧
      (∀ n, s.finish.listing.countP (·.carries (Label.fresh n).text) =
        if n < s.env.nextLabel then 1 else 0) ∧
      (∀ i ∈ s.finish.listing, ∀ text, i.label = some (.named text) →
        ∀ n, text ≠ (Label.fresh n).text) ∧
      s.pending = [] := by
  intro s
  have hlinked : Linked s.env.nextLabel s.finish.listing := by
    have hcode := (outcome_linked hscan).header_append (s.scopes.global?.getD .empty)
      s.scopes.externals
    simp only [s, Session.finish, Session.scopes, program_start_eq] at hcode ⊢
    exact hcode
  refine ⟨?_, ?_, hlinked.carried, ?_, ?_⟩
  · unfold compile
    rw [hscan]
    rfl
  · intro i hi label hop
    have htarget : i.op.target? = some label := by
      rcases hop with hop | hop <;> rw [hop] <;> rfl
    obtain ⟨n, hn, rfl⟩ := hlinked.jumps i hi label htarget
    refine ⟨by rw [hlinked.carried n, if_pos hn], ?_⟩
    intro j hj hcarries
    rw [hlinked.landings j hj n hcarries]
    rfl
  · intro i hi text hlabel n
    exact (hlinked.procedures i hi text hlabel).ne_fresh n
  · simp only [s, program_start_eq]

/-- A text in which the name of a procedure, two parentheses and a declaration are missing. -/
def faultyText : String :=
  "program p \x7b int x; void ( \x7b while (x < 3) \x7b if x y := 2; \x7d void f() \x7b \x7d \x7d \x7d"

theorem jump_targets_closed_of_faultyText :
    ∃ tokens, scan faultyText "shell" = .ok tokens ∧
      (compile faultyText "shell" 0).toOption.map (·.errorCount) = some 8 ∧
      let s := (Session.start .full (.ofTokens tokens "shell") 0).program
      compile faultyText "shell" 0 = .ok s.finish ∧
        (∀ i ∈ s.finish.listing, ∀ label, i.op = .jump label ∨ i.op = .jumpUnless label →
          s.finish.listing.countP (·.carries label.text) = 1 ∧
            ∀ j ∈ s.finish.listing, j.carries label.text = true → j.op = .nop) ∧
        (∀ n, s.finish.listing.countP (·.carries (Label.fresh n).text) =
          if n < s.env.nextLabel then 1 else 0) ∧
        (∀ i ∈ s.finish.listing, ∀ text, i.label = some (.named text) →
          ∀ n, text ≠ (Label.fresh n).text) ∧
        s.pending = [] := by
  have hok : (scan faultyText "shell").toOption.isSome = true := by decide +kernel
  cases hscan : scan faultyText "shell" with
  | error fault => simp [hscan, Except.toOption] at hok
  | ok tokens => exact ⟨tokens, rfl, by decide +kernel, jump_targets_closed hscan 0⟩

end SlotLang
