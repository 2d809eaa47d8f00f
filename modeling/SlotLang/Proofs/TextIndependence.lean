import SlotLang.Proofs.Gaps
import SlotLang.Proofs.Gating
import SlotLang.Proofs.TokenMaps

/-!
# Faults of grammar do not depend on texts

The tree of a program is read by looking at kinds, and the faults of grammar that are reported for it
are its gaps.  So two lists of tokens that differ only in the texts of their tokens have the same
faults of grammar, at the same places, and as many tokens of each are consumed.  What the names denote
and what the numbers are worth leads to other faults at most.

Both lists are compared with a third one, in which all texts are blank.
-/

namespace SlotLang

/-! ## Marks -/

namespace Outline

/-- What is told of the leaves: nothing but its place in the row for a token that was read, and the
fault for a gap. -/
def marks (o : Outline) : List (Option PlacedFault) := o.leaves.map Leaf.gap?

@[simp] theorem marks_empty : empty.marks = [] := rfl

@[simp] theorem marks_token (t : Token) : (token t).marks = [none] := rfl

@[simp] theorem marks_gap (fault : Fault) (next : Token) :
    (gap fault next).marks = [some ⟨fault, next.start⟩] := rfl

@[simp] theorem marks_append (a b : Outline) : (a ++ b).marks = a.marks ++ b.marks := by
  simp [marks]

@[simp] theorem marks_round (body more : Outline) :
    (round body more).marks = body.marks ++ more.marks := by
  simp [marks, leaves]

theorem marks_loop_map {α : Type} {body : α → Outline} {f : α → α}
    (h : ∀ a, (body (f a)).marks = (body a).marks) (items : List α) :
    (loop body (items.map f)).marks = (loop body items).marks := by
  induction items with
  | nil => rfl
  | cons a items ih => simp [loop, h, ih]

theorem gaps_eq (o : Outline) : o.gaps = o.marks.filterMap id := by
  simp [gaps, marks, List.filterMap_map, Function.comp_def]

theorem length_tokens_eq (o : Outline) : o.tokens.length = o.marks.countP Option.isNone := by
  rw [tokens, marks]
  induction o.leaves with
  | nil => rfl
  | cons l leaves ih =>
    cases l <;> simpa [List.filterMap_cons, List.countP_cons, Leaf.token?, Leaf.gap?] using ih

end Outline

/-! ## Marks of mapped trees -/

section

-- Inside a mutual block the assumption is handed on without being named.
set_option linter.unusedSectionVars false

variable {m : TokenMap} (hm : ∀ t, (m.token t).start = t.start)

include hm

theorem Terminal.marks_map (t : Terminal) : (t.map m).outline.marks = t.outline.marks := by
  cases t with
  | read token => rfl
  | missing kind next => simp [Terminal.map, Terminal.outline, hm]

theorem Terminal.marks_mapText (t : Terminal) : (t.mapText m).outline.marks = t.outline.marks := by
  cases t with
  | read token => rfl
  | missing kind next => simp [Terminal.mapText, Terminal.outline, hm]

theorem Index.marks_map (i : Index) : (i.map m).outline.marks = i.outline.marks := by
  simp [Index.map, Index.outline, Terminal.marks_map hm, Terminal.marks_mapText hm]

theorem MemberRef.marks_map (member : MemberRef) :
    (member.map m).outline.marks = member.outline.marks := by
  simp [MemberRef.map, MemberRef.outline, Terminal.marks_mapText hm,
    Outline.marks_loop_map (Index.marks_map hm)]

theorem Designator.marks_map (d : Designator) : (d.map m).outline.marks = d.outline.marks := by
  simp [Designator.map, Designator.outline, Terminal.marks_mapText hm,
    Outline.marks_loop_map (Index.marks_map hm), Outline.marks_loop_map (MemberRef.marks_map hm)]

theorem Expr.marks_map (e : Expr) : (e.map m).outline.marks = e.outline.marks := by
  induction e with
  | missing next => simp [Expr.map, Expr.outline, hm]
  | number token | boolean token => rfl
  | designator d => exact d.marks_map hm
  | negation minus operand ih => simp [Expr.map, Expr.outline, ih]
  | grouping opening content closing ih =>
    simp [Expr.map, Expr.outline, ih, Terminal.marks_map hm]
  | relational left op right ihLeft ihRight | arithmetic left op right ihLeft ihRight =>
    simp [Expr.map, Expr.outline, ihLeft, ihRight]

omit hm in
theorem Separated.marks_map {α : Type} {item : α → Outline} {f : α → α}
    (h : ∀ a, (item (f a)).marks = (item a).marks) (items : Separated α) :
    ((items.map m f).outline item).marks = (items.outline item).marks := by
  have hothers : (Outline.loop (fun other : Token × α => .token other.1 ++ item other.2)
      (items.others.map fun other => (m.token other.1, f other.2))).marks =
      (Outline.loop (fun other : Token × α => .token other.1 ++ item other.2) items.others).marks :=
    Outline.marks_loop_map (by simp [h]) items.others
  simp [Separated.map, Separated.outline, h, hothers]

omit hm in
theorem Separated.marks_map? {α : Type} {item : α → Outline} {f : α → α}
    (h : ∀ a, (item (f a)).marks = (item a).marks) (items : Option (Separated α)) :
    (Separated.outline? item (items.map (Separated.map m f))).marks =
      (Separated.outline? item items).marks := by
  cases items with
  | none => rfl
  | some items => exact items.marks_map h

/-! ## Declarations -/

theorem ScalarSpec.marks_map (s : ScalarSpec) : (s.map m).outline.marks = s.outline.marks := by
  cases s with
  | read token => rfl
  | missing next => simp [ScalarSpec.map, ScalarSpec.outline, hm]

theorem TypeSpec.marks_map (spec : TypeSpec) : (spec.map m).outline.marks = spec.outline.marks := by
  cases spec with
  | scalar s => exact s.marks_map hm
  | struct keyword name => simp [TypeSpec.map, TypeSpec.outline, Terminal.marks_mapText hm]

theorem ConstEntry.marks_map (entry : ConstEntry) :
    (entry.map m).outline.marks = entry.outline.marks := by
  obtain ⟨ty, name, value⟩ := entry
  simp only [ConstEntry.map, ConstEntry.outline, Outline.marks_append, ScalarSpec.marks_map hm,
    Terminal.marks_mapText hm]
  -- A value is read only behind a name, and a name stays a name.
  cases name <;> cases value <;>
    simp [Terminal.mapText, Terminal.value?, Terminal.token?, Terminal.marks_map hm,
      Expr.marks_map hm]

theorem Declarator.marks_map (d : Declarator) : (d.map m).outline.marks = d.outline.marks := by
  simp [Declarator.map, Declarator.outline, Terminal.marks_mapText hm,
    Outline.marks_loop_map (Index.marks_map hm)]

theorem marks_skippedOutline (production : String) (t : Token) :
    (skippedOutline production (m.token t)).marks = (skippedOutline production t).marks := by
  simp [skippedOutline, hm]

theorem StructItem.marks_map (item : StructItem) :
    (item.map m).outline.marks = item.outline.marks := by
  cases item with
  | skipped token => exact marks_skippedOutline hm _ token
  | member ty name bounds semicolon =>
    simp [StructItem.map, StructItem.outline, TypeSpec.marks_map hm, Terminal.marks_mapText hm,
      Terminal.marks_map hm, Outline.marks_loop_map (Index.marks_map hm)]

theorem Declaration.marks_map (d : Declaration) : (d.map m).outline.marks = d.outline.marks := by
  cases d with
  | const keyword entries semicolon =>
    simp [Declaration.map, Declaration.outline, Separated.marks_map (ConstEntry.marks_map hm),
      Terminal.marks_map hm]
  | vars spec declarators semicolon =>
    simp [Declaration.map, Declaration.outline, Separated.marks_map (Declarator.marks_map hm),
      TypeSpec.marks_map hm, Terminal.marks_map hm]
  | structDef keyword name opening items closing semicolon =>
    simp [Declaration.map, Declaration.outline, Terminal.marks_map hm, Terminal.marks_mapText hm,
      Outline.marks_loop_map (StructItem.marks_map hm)]

/-! ## Statements -/

theorem Condition.marks_map (c : Condition) : (c.map m).outline.marks = c.outline.marks := by
  simp [Condition.map, Condition.outline, Terminal.marks_map hm, Expr.marks_map hm]

theorem Assignment.marks_map (a : Assignment) : (a.map m).outline.marks = a.outline.marks := by
  cases a with
  | complete target becomes value =>
    simp [Assignment.map, Assignment.outline, Designator.marks_map hm, Expr.marks_map hm]
  | broken target next => simp [Assignment.map, Assignment.outline, Designator.marks_map hm, hm]

theorem marks_fallbackOutline (fallback : Option (Token × Terminal)) :
    (fallbackOutline (fallback.map fun parts => (m.token parts.1, parts.2.map m))).marks =
      (fallbackOutline fallback).marks := by
  cases fallback with
  | none => rfl
  | some parts => simp [fallbackOutline, Terminal.marks_map hm]

mutual

theorem Stmt.marks_map : ∀ s : Stmt, (s.map m).outline.marks = s.outline.marks
  | .missing _ => by simp [Stmt.map, Stmt.outline, hm]
  | .broken target => by simp [Stmt.map, Stmt.outline, target.marks_map hm]
  | .dangling target _ => by simp [Stmt.map, Stmt.outline, target.marks_map hm, hm]
  | .assign _ _ _ _ | .choose _ _ _ _ _ _ _ _ | .read _ _ _ => by
      simp [Stmt.map, Stmt.outline, Designator.marks_map hm, Expr.marks_map hm,
        Terminal.marks_map hm]
  | .call _ _ _ _ _ => by
      simp [Stmt.map, Stmt.outline, Designator.marks_map hm, Terminal.marks_map hm,
        Separated.marks_map? (Expr.marks_map hm)]
  | .branch _ _ body => by
      simp [Stmt.map, Stmt.outline, Condition.marks_map hm, body.marks_map]
  | .branchElse _ _ body _ alternative => by
      simp [Stmt.map, Stmt.outline, Condition.marks_map hm, body.marks_map, alternative.marks_map]
  | .whileLoop _ _ body => by
      simp [Stmt.map, Stmt.outline, Condition.marks_map hm, body.marks_map]
  | .forLoop _ _ _ _ _ _ _ _ body => by
      simp [Stmt.map, Stmt.outline, Assignment.marks_map hm, Expr.marks_map hm,
        Terminal.marks_map hm, body.marks_map]
  | .switch _ _ _ _ _ cases _ fallbackBody _ => by
      simp [Stmt.map, Stmt.outline, Expr.marks_map hm, Terminal.marks_map hm,
        marks_casesOutline cases, marks_fallbackOutline hm, marks_stmtsOutline fallbackBody]
  | .write _ _ _ => by
      simp [Stmt.map, Stmt.outline, Terminal.marks_map hm, Separated.marks_map (Expr.marks_map hm)]
  | .block _ items _ => by
      simp [Stmt.map, Stmt.outline, Terminal.marks_map hm, marks_blockOutline items]

theorem marks_stmtsOutline : ∀ stmts : List Stmt,
    (stmtsOutline (mapStmts m stmts)).marks = (stmtsOutline stmts).marks
  | [] => rfl
  | s :: more => by simp [mapStmts, stmtsOutline, s.marks_map, marks_stmtsOutline more]

theorem marks_casesOutline : ∀ cases : List Case,
    (casesOutline (mapCases m cases)).marks = (casesOutline cases).marks
  | [] => rfl
  | .mk _ _ _ body :: more => by
      simp [mapCases, casesOutline, Expr.marks_map hm, Terminal.marks_map hm,
        marks_stmtsOutline body, marks_casesOutline more]

theorem marks_blockOutline : ∀ items : List BlockItem,
    (blockOutline (mapBlock m items)).marks = (blockOutline items).marks
  | [] => rfl
  | item :: more => by simp [mapBlock, blockOutline, item.marks_map, marks_blockOutline more]

theorem BlockItem.marks_map : ∀ item : BlockItem, (item.map m).outline.marks = item.outline.marks
  | .declaration d => by simp [BlockItem.map, BlockItem.outline, d.marks_map hm]
  | .statement s => by simp [BlockItem.map, BlockItem.outline, s.marks_map]
  | .skipped token => by simp [BlockItem.map, BlockItem.outline, marks_skippedOutline hm]

end

/-! ## Procedures and programs -/

theorem Param.marks_map (p : Param) : (p.map m).outline.marks = p.outline.marks := by
  simp [Param.map, Param.outline, ScalarSpec.marks_map hm, Terminal.marks_mapText hm]

mutual

theorem Procedure.marks_map : ∀ p : Procedure, (p.map m).outline.marks = p.outline.marks
  | .mk _ _ _ _ _ _ body _ => by
      simp [Procedure.map, Procedure.outline, Terminal.marks_map hm, Terminal.marks_mapText hm,
        Separated.marks_map? (Param.marks_map hm), marks_bodyOutline body]

theorem marks_bodyOutline : ∀ items : List BodyItem,
    (bodyOutline (mapBody m items)).marks = (bodyOutline items).marks
  | [] => rfl
  | item :: more => by simp [mapBody, bodyOutline, item.marks_map, marks_bodyOutline more]

theorem BodyItem.marks_map : ∀ item : BodyItem, (item.map m).outline.marks = item.outline.marks
  | .declaration d => by simp [BodyItem.map, BodyItem.outline, d.marks_map hm]
  | .statement s => by simp [BodyItem.map, BodyItem.outline, s.marks_map hm]
  | .nested p => by simp [BodyItem.map, BodyItem.outline, p.marks_map]
  | .skipped token => by simp [BodyItem.map, BodyItem.outline, marks_skippedOutline hm]

end

theorem marks_externalParamsOutline (params : Option ExternalParams) :
    (externalParamsOutline (params.map (ExternalParams.map m))).marks =
      (externalParamsOutline params).marks := by
  cases params with
  | none => rfl
  | some params =>
    simp [externalParamsOutline, ExternalParams.map, ExternalParams.outline,
      Separated.marks_map? (ScalarSpec.marks_map hm), Terminal.marks_map hm]

theorem External.marks_map (e : External) : (e.map m).outline.marks = e.outline.marks := by
  cases e with
  | vars keyword ty names semicolon =>
    simp [External.map, External.outline, ScalarSpec.marks_map hm, Terminal.marks_map hm,
      Separated.marks_map (Terminal.marks_mapText hm)]
  | const keyword constant ty name semicolon =>
    simp [External.map, External.outline, ScalarSpec.marks_map hm, Terminal.marks_map hm,
      Terminal.marks_mapText hm]
  | procedure keyword mark name params semicolon =>
    simp [External.map, External.outline, Terminal.marks_map hm, Terminal.marks_mapText hm,
      marks_externalParamsOutline hm]
  | missing keyword next => simp [External.map, External.outline, hm]

theorem ProgramItem.marks_map (item : ProgramItem) :
    (item.map m).outline.marks = item.outline.marks := by
  cases item with
  | declaration d => exact d.marks_map hm
  | procedure p => exact p.marks_map hm
  | external e => exact e.marks_map hm
  | skipped token => exact marks_skippedOutline hm _ token

/-- A map that moves no token leaves the gaps of a program, and the tokens between them, in their
places. -/
theorem Program.marks_map (p : Program) : (p.map m).outline.marks = p.outline.marks := by
  simp [Program.map, Program.outline, Terminal.marks_map hm, Terminal.marks_mapText hm,
    Outline.marks_loop_map (ProgramItem.marks_map hm)]

end

/-! ## Blank texts -/

namespace Token

/-- What a token is without its text: its kind, and where it starts and ends. -/
def shape (t : Token) : TokenKind × Position × Position := (t.kind, t.start, t.stop)

def ofShape (shape : TokenKind × Position × Position) : Token :=
  ⟨shape.1, "", shape.2.1, shape.2.2⟩

end Token

def blankTexts : TokenMap where
  token t := .ofShape t.shape
  text t := .ofShape t.shape
  kind_token _ := rfl
  text_eq _ _ := rfl

theorem Window.blank_ofTokens (tokens : List Token) (file : String) :
    (Window.ofTokens tokens file).map blankTexts =
      let blank := (tokens.map Token.shape).map Token.ofShape
      ⟨blank, (blank.find? fun t => t.kind = .eof).getD
        (.ofShape (Token.ending ⟨0, 0, file⟩).shape)⟩ := by
  have hfound : ((tokens.map Token.shape).map Token.ofShape).find? (fun t => t.kind = .eof) =
      (tokens.find? fun t => t.kind = .eof).map (blankTexts.token ·) := by
    rw [List.map_map, List.find?_map]
    rfl
  simp only [hfound, Window.map, Window.ofTokens]
  cases tokens.find? fun t => t.kind = .eof <;> simp [blankTexts]

/-- The marks of a program depend on the shapes of its tokens only. -/
theorem marks_eq_of_shape {first second : List Token}
    (h : first.map Token.shape = second.map Token.shape) (file : String) :
    let w := Window.ofTokens first file
    let w' := Window.ofTokens second file
    (w.readProgram .full w.budget).1.outline.marks =
      (w'.readProgram .full w'.budget).1.outline.marks := by
  intro w w'
  have hwindow : w.map blankTexts = w'.map blankTexts := by
    rw [Window.blank_ofTokens, Window.blank_ofTokens, h]
  have hblank : ∀ v : Window, (v.readProgram .full v.budget).1.outline.marks =
      ((v.map blankTexts).readProgram .full (v.map blankTexts).budget).1.outline.marks := by
    intro v
    rw [Window.budget_map, Window.readProgram_map, Program.marks_map fun _ => rfl]
  rw [hblank, hwindow, ← hblank]

/-! ## What is recorded -/

/-- The faults of grammar that are recorded if nothing is dropped are those among the marks. -/
theorem syntaxDiagnostics_eq (w : Window) :
    (compileWindow w 0).diagnostics.filter (·.severity = FaultClass.syntaxFault.name) =
      ((w.readProgram .full w.budget).1.outline.marks.filterMap id).map .fault := by
  have hevent : ∀ event : Event,
      (event.diagnostic?.filter fun d => d.severity = FaultClass.syntaxFault.name) =
        event.gap?.map .fault := by
    intro event
    cases event with
    | consumed => rfl
    | warning message position => simp [Event.diagnostic?, Event.gap?, Diagnostic.severity,
        FaultClass.name]
    | fault e =>
      cases hcategory : e.fault.category <;>
        simp [Event.diagnostic?, Event.gap?, Diagnostic.severity, hcategory, FaultClass.name]
  have hgaps : w.outcome.events.filterMap Event.gap? =
      (w.readProgram .full w.budget).1.outline.gaps := (Program.lower_recounts _ _).gaps
  rw [← Outline.gaps_eq, ← hgaps, List.map_filterMap, compileWindow_eq,
    Reporter.diagnostics_hearAll_new, List.filter_filterMap]
  exact congrArg (w.outcome.events.filterMap ·) (funext hevent)

/-- Two lists of tokens of the same kinds at the same places are read alike, whatever their names and
numbers are: the same number of tokens is consumed, and the same faults of grammar are recorded. -/
theorem syntax_faults_ignore_texts {first second : List Token}
    (h : first.map Token.shape = second.map Token.shape) (file : String) :
    (Window.ofTokens first file).outcome.events.count .consumed =
      (Window.ofTokens second file).outcome.events.count .consumed ∧
    (compileTokens first file 0).diagnostics.filter
        (·.severity = FaultClass.syntaxFault.name) =
      (compileTokens second file 0).diagnostics.filter
        (·.severity = FaultClass.syntaxFault.name) := by
  have hmarks := marks_eq_of_shape h file
  have hconsumed : ∀ w : Window, w.outcome.events.count .consumed =
      (w.readProgram .full w.budget).1.outline.marks.countP Option.isNone := by
    intro w
    rw [← Outline.length_tokens_eq]
    exact (Program.lower_recounts _ _).count_consumed
  refine ⟨?_, ?_⟩
  · rw [hconsumed, hconsumed, hmarks]
  · rw [compileTokens, compileTokens, syntaxDiagnostics_eq, syntaxDiagnostics_eq, hmarks]

/-- A procedure sets a name to a value, and then a variable to a value that is missing. -/
def unfinishedUpdate (name value : String) : List Token :=
  let token (kind : TokenKind) (value : String) : Token := ⟨kind, value, .start "", .start ""⟩
  [token .kwProgram "program", token .identifier "p", token .openCurly "\x7b", token .kwInt "int",
    token .identifier "x", token .semicolon ";", token .kwVoid "void", token .identifier "q",
    token .openParen "(", token .closeParen ")", token .openCurly "\x7b", token .identifier name,
    token .assignment ":=", token .number value, token .semicolon ";", token .identifier "x",
    token .assignment ":=", token .semicolon ";", token .closeCurly "\x7d",
    token .closeCurly "\x7d"]

theorem syntax_faults_ignore_texts_unfinishedUpdate :
    let known := unfinishedUpdate "x" "1"
    let unknown := unfinishedUpdate "y" "99999999999999999999"
    (compileTokens known "" 0).errorCount = 2 ∧ (compileTokens unknown "" 0).errorCount = 4 ∧
    (Window.ofTokens known "").outcome.events.count .consumed =
      (Window.ofTokens unknown "").outcome.events.count .consumed ∧
    (compileTokens known "" 0).diagnostics.filter
        (·.severity = FaultClass.syntaxFault.name) =
      (compileTokens unknown "" 0).diagnostics.filter
        (·.severity = FaultClass.syntaxFault.name) := by
  refine ⟨by decide +kernel, by decide +kernel, ?_⟩
  exact syntax_faults_ignore_texts (by decide) ""

end SlotLang
