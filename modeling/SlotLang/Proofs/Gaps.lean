import SlotLang.Proofs.Trace

/-!
# What a tree lacks

A tree of the grammar has a gap where a token was wanted and not found, where no phrase of the wanted
kind starts, and where a token was skipped.  Lowering reports the gaps of a tree, in their order, and
no other fault of grammar: what it refuses on its own account is a fault of meaning.  So the faults
of grammar that are heard do not depend on anything that is declared, and there are none of them if
and only if the tree is without gaps.
-/

namespace SlotLang

/-- The fault of grammar that an event reports. -/
def Event.gap? : Event → Option PlacedFault
  | .fault e => if e.fault.category = .syntaxFault then some e else none
  | .consumed | .warning _ _ => none

/-- The faults of grammar among the events are those among the leaves. -/
theorem Tells.gaps {last final : Token} {leaves : List Leaf} {events : List Event}
    (h : Tells last leaves events final) :
    events.filterMap Event.gap? = leaves.filterMap Leaf.gap? := by
  induction h with
  | done last => rfl
  | token _ ih => simpa [Event.gap?, Leaf.gap?, List.filterMap_cons] using ih
  | gap hfault _ ih => simpa [Event.gap?, Leaf.gap?, hfault] using ih
  | meaning hfault _ ih => simpa [Event.gap?, hfault, List.filterMap_cons] using ih
  | warning _ ih => simpa [Event.gap?, List.filterMap_cons] using ih

/-! ## Designators and expressions -/

def Terminal.gaps : Terminal → List PlacedFault
  | .read _ => []
  | .missing kind next => [⟨.expected kind.describe, next.start⟩]

@[simp] theorem Terminal.gaps_outline (t : Terminal) : t.outline.gaps = t.gaps := by
  cases t <;> rfl

def Index.gaps (i : Index) : List PlacedFault := i.number.gaps ++ i.closing.gaps

@[simp] theorem Index.gaps_outline (i : Index) : i.outline.gaps = i.gaps := by
  simp [Index.outline, Index.gaps]

def MemberRef.gaps (m : MemberRef) : List PlacedFault :=
  m.name.gaps ++ m.indices.flatMap Index.gaps

@[simp] theorem MemberRef.gaps_outline (m : MemberRef) : m.outline.gaps = m.gaps := by
  simp [MemberRef.outline, MemberRef.gaps, Outline.gaps_loop]

def Designator.gaps (d : Designator) : List PlacedFault :=
  d.head.gaps ++ (d.indices.flatMap Index.gaps ++ d.members.flatMap MemberRef.gaps)

@[simp] theorem Designator.gaps_outline (d : Designator) : d.outline.gaps = d.gaps := by
  simp [Designator.outline, Designator.gaps, Outline.gaps_loop]

def Expr.gaps : Expr → List PlacedFault
  | .missing next => [⟨.invalid "Factor", next.start⟩]
  | .number _ | .boolean _ => []
  | .designator d => d.gaps
  | .negation _ operand => operand.gaps
  | .grouping _ content closing => content.gaps ++ closing.gaps
  | .relational left _ right | .arithmetic left _ right => left.gaps ++ right.gaps

@[simp] theorem Expr.gaps_outline (e : Expr) : e.outline.gaps = e.gaps := by
  induction e with
  | missing next | number t | boolean t => rfl
  | designator d => exact d.gaps_outline
  | negation minus operand ih => simpa [Expr.outline, Expr.gaps] using ih
  | grouping opening content closing ih => simp [Expr.outline, Expr.gaps, ih]
  | relational left op right ihLeft ihRight | arithmetic left op right ihLeft ihRight =>
    simp [Expr.outline, Expr.gaps, ihLeft, ihRight]

namespace Separated

variable {α : Type}

def gaps (gapsOf : α → List PlacedFault) (items : Separated α) : List PlacedFault :=
  gapsOf items.first ++ items.others.flatMap fun other => gapsOf other.2

def gaps? (gapsOf : α → List PlacedFault) (items : Option (Separated α)) : List PlacedFault :=
  (items.map (gaps gapsOf)).getD []

variable {item : α → Outline} {gapsOf : α → List PlacedFault}

theorem gaps_outline (h : ∀ a, (item a).gaps = gapsOf a) (items : Separated α) :
    (items.outline item).gaps = items.gaps gapsOf := by
  simp [outline, gaps, Outline.gaps_loop, h]

theorem gaps_outline? (h : ∀ a, (item a).gaps = gapsOf a) (items : Option (Separated α)) :
    (outline? item items).gaps = gaps? gapsOf items := by
  cases items with
  | none => rfl
  | some items => exact gaps_outline h items

end Separated

/-! ## Declarations -/

def ScalarSpec.gaps : ScalarSpec → List PlacedFault
  | .read _ => []
  | .missing next => [⟨.invalid "Type", next.start⟩]

@[simp] theorem ScalarSpec.gaps_outline (s : ScalarSpec) : s.outline.gaps = s.gaps := by
  cases s <;> rfl

def TypeSpec.gaps : TypeSpec → List PlacedFault
  | .scalar s => s.gaps
  | .struct _ name => name.gaps

@[simp] theorem TypeSpec.gaps_outline (spec : TypeSpec) : spec.outline.gaps = spec.gaps := by
  cases spec <;> simp [TypeSpec.outline, TypeSpec.gaps]

/-- A constant without a name has no value that could lack something. -/
def ConstEntry.gaps (entry : ConstEntry) : List PlacedFault :=
  entry.ty.gaps ++ (entry.name.gaps ++
    match entry.name.value?, entry.value with
    | some _, some (becomes, value) => becomes.gaps ++ value.gaps
    | _, _ => [])

@[simp] theorem ConstEntry.gaps_outline (entry : ConstEntry) :
    entry.outline.gaps = entry.gaps := by
  simp only [ConstEntry.outline, ConstEntry.gaps, Outline.gaps_append, ScalarSpec.gaps_outline,
    Terminal.gaps_outline]
  cases entry.name.value? <;> cases entry.value <;> simp

def Declarator.gaps (d : Declarator) : List PlacedFault :=
  d.name.gaps ++ d.bounds.flatMap Index.gaps

@[simp] theorem Declarator.gaps_outline (d : Declarator) : d.outline.gaps = d.gaps := by
  simp [Declarator.outline, Declarator.gaps, Outline.gaps_loop]

@[simp] theorem gaps_skippedOutline (production : String) (t : Token) :
    (skippedOutline production t).gaps = [⟨.invalid production, t.start⟩] := rfl

def StructItem.gaps : StructItem → List PlacedFault
  | .skipped token => [⟨.invalid "Decl", token.start⟩]
  | .member ty name bounds semicolon =>
      ty.gaps ++ (name.gaps ++ (bounds.flatMap Index.gaps ++ semicolon.gaps))

@[simp] theorem StructItem.gaps_outline (item : StructItem) : item.outline.gaps = item.gaps := by
  cases item <;> simp [StructItem.outline, StructItem.gaps, Outline.gaps_loop]

def Declaration.gaps : Declaration → List PlacedFault
  | .const _ entries semicolon => entries.gaps ConstEntry.gaps ++ semicolon.gaps
  | .vars ty declarators semicolon =>
      ty.gaps ++ (declarators.gaps Declarator.gaps ++ semicolon.gaps)
  | .structDef _ name opening items closing semicolon =>
      name.gaps ++ (opening.gaps ++ (items.flatMap StructItem.gaps ++
        (closing.gaps ++ semicolon.gaps)))

@[simp] theorem Declaration.gaps_outline (d : Declaration) : d.outline.gaps = d.gaps := by
  cases d with
  | const keyword entries semicolon =>
    simp [Declaration.outline, Declaration.gaps, Separated.gaps_outline ConstEntry.gaps_outline]
  | vars spec declarators semicolon =>
    simp [Declaration.outline, Declaration.gaps, Separated.gaps_outline Declarator.gaps_outline]
  | structDef keyword name opening items closing semicolon =>
    simp [Declaration.outline, Declaration.gaps, Outline.gaps_loop]

/-! ## Statements -/

def Condition.gaps (c : Condition) : List PlacedFault :=
  c.opening.gaps ++ (c.test.gaps ++ c.closing.gaps)

@[simp] theorem Condition.gaps_outline (c : Condition) : c.outline.gaps = c.gaps := by
  simp [Condition.outline, Condition.gaps]

def Assignment.gaps : Assignment → List PlacedFault
  | .complete target _ value => target.gaps ++ value.gaps
  | .broken target next =>
      target.gaps ++ [⟨.expected TokenKind.assignment.describe, next.start⟩]

@[simp] theorem Assignment.gaps_outline (a : Assignment) : a.outline.gaps = a.gaps := by
  cases a <;> simp [Assignment.outline, Assignment.gaps]

def fallbackGaps (fallback : Option (Token × Terminal)) : List PlacedFault :=
  (fallback.map fun pair => pair.2.gaps).getD []

@[simp] theorem gaps_fallbackOutline (fallback : Option (Token × Terminal)) :
    (fallbackOutline fallback).gaps = fallbackGaps fallback := by
  cases fallback <;> simp [fallbackOutline, fallbackGaps]

mutual

def Stmt.gaps : Stmt → List PlacedFault
  | .missing next => [⟨.invalid "Stat", next.start⟩]
  | .broken target => target.gaps
  | .dangling target next => target.gaps ++ [⟨.invalid "Stat", next.start⟩]
  | .assign target _ value semicolon => target.gaps ++ (value.gaps ++ semicolon.gaps)
  | .choose target _ guard _ first colon second semicolon =>
      target.gaps ++ (guard.gaps ++ (first.gaps ++ (colon.gaps ++
        (second.gaps ++ semicolon.gaps))))
  | .call callee _ arguments closing semicolon =>
      callee.gaps ++ (Separated.gaps? Expr.gaps arguments ++ (closing.gaps ++ semicolon.gaps))
  | .branch _ condition body => condition.gaps ++ body.gaps
  | .branchElse _ condition body _ alternative =>
      condition.gaps ++ (body.gaps ++ alternative.gaps)
  | .whileLoop _ condition body => condition.gaps ++ body.gaps
  | .forLoop _ opening init afterInit test afterTest step closing body =>
      opening.gaps ++ (init.gaps ++ (afterInit.gaps ++ (test.gaps ++ (afterTest.gaps ++
        (step.gaps ++ (closing.gaps ++ body.gaps))))))
  | .switch _ opening subject closing brace cases fallback fallbackBody closingBrace =>
      opening.gaps ++ (subject.gaps ++ (closing.gaps ++ (brace.gaps ++ (casesGaps cases ++
        (fallbackGaps fallback ++ (stmtsGaps fallbackBody ++ closingBrace.gaps))))))
  | .read _ target semicolon => target.gaps ++ semicolon.gaps
  | .write _ operands semicolon => operands.gaps Expr.gaps ++ semicolon.gaps
  | .block _ items closing => blockGaps items ++ closing.gaps

def stmtsGaps : List Stmt → List PlacedFault
  | [] => []
  | s :: more => s.gaps ++ stmtsGaps more

def casesGaps : List Case → List PlacedFault
  | [] => []
  | .mk _ label colon body :: more =>
      label.gaps ++ (colon.gaps ++ (stmtsGaps body ++ casesGaps more))

def blockGaps : List BlockItem → List PlacedFault
  | [] => []
  | item :: more => item.gaps ++ blockGaps more

def BlockItem.gaps : BlockItem → List PlacedFault
  | .declaration d => d.gaps
  | .statement s => s.gaps
  | .skipped token => [⟨.invalid "Stat", token.start⟩]

end

mutual

theorem Stmt.gaps_outline : ∀ s : Stmt, s.outline.gaps = s.gaps
  | .missing _ => rfl
  | .broken target => target.gaps_outline
  | .dangling _ _ | .assign _ _ _ _ | .choose _ _ _ _ _ _ _ _ | .read _ _ _ => by
      simp [Stmt.outline, Stmt.gaps]
  | .call _ _ _ _ _ => by
      simp [Stmt.outline, Stmt.gaps, Separated.gaps_outline? Expr.gaps_outline]
  | .branch _ _ body => by simp [Stmt.outline, Stmt.gaps, body.gaps_outline]
  | .branchElse _ _ body _ alternative => by
      simp [Stmt.outline, Stmt.gaps, body.gaps_outline, alternative.gaps_outline]
  | .whileLoop _ _ body => by simp [Stmt.outline, Stmt.gaps, body.gaps_outline]
  | .forLoop _ _ _ _ _ _ _ _ body => by simp [Stmt.outline, Stmt.gaps, body.gaps_outline]
  | .switch _ _ _ _ _ cases _ fallbackBody _ => by
      simp [Stmt.outline, Stmt.gaps, gaps_casesOutline cases, gaps_stmtsOutline fallbackBody]
  | .write _ _ _ => by
      simp [Stmt.outline, Stmt.gaps, Separated.gaps_outline Expr.gaps_outline]
  | .block _ items _ => by simp [Stmt.outline, Stmt.gaps, gaps_blockOutline items]

theorem gaps_stmtsOutline : ∀ stmts : List Stmt, (stmtsOutline stmts).gaps = stmtsGaps stmts
  | [] => rfl
  | s :: more => by simp [stmtsOutline, stmtsGaps, s.gaps_outline, gaps_stmtsOutline more]

theorem gaps_casesOutline : ∀ cases : List Case, (casesOutline cases).gaps = casesGaps cases
  | [] => rfl
  | .mk _ _ _ body :: more => by
      simp [casesOutline, casesGaps, gaps_stmtsOutline body, gaps_casesOutline more]

theorem gaps_blockOutline : ∀ items : List BlockItem, (blockOutline items).gaps = blockGaps items
  | [] => rfl
  | item :: more => by
      simp [blockOutline, blockGaps, item.gaps_outline, gaps_blockOutline more]

theorem BlockItem.gaps_outline : ∀ item : BlockItem, item.outline.gaps = item.gaps
  | .declaration d => d.gaps_outline
  | .statement s => s.gaps_outline
  | .skipped _ => rfl

end

/-! ## Procedures and programs -/

def Param.gaps (p : Param) : List PlacedFault := p.ty.gaps ++ p.name.gaps

@[simp] theorem Param.gaps_outline (p : Param) : p.outline.gaps = p.gaps := by
  simp [Param.outline, Param.gaps]

mutual

def Procedure.gaps : Procedure → List PlacedFault
  | .mk _ name opening params closing brace body closingBrace =>
      name.gaps ++ (opening.gaps ++ (Separated.gaps? Param.gaps params ++ (closing.gaps ++
        (brace.gaps ++ (bodyGaps body ++ closingBrace.gaps)))))

def bodyGaps : List BodyItem → List PlacedFault
  | [] => []
  | item :: more => item.gaps ++ bodyGaps more

def BodyItem.gaps : BodyItem → List PlacedFault
  | .declaration d => d.gaps
  | .statement s => s.gaps
  | .nested p => p.gaps
  | .skipped token => [⟨.invalid "Stat", token.start⟩]

end

mutual

theorem Procedure.gaps_outline : ∀ p : Procedure, p.outline.gaps = p.gaps
  | .mk _ _ _ _ _ _ body _ => by
      simp [Procedure.outline, Procedure.gaps, Separated.gaps_outline? Param.gaps_outline,
        gaps_bodyOutline body]

theorem gaps_bodyOutline : ∀ items : List BodyItem, (bodyOutline items).gaps = bodyGaps items
  | [] => rfl
  | item :: more => by simp [bodyOutline, bodyGaps, item.gaps_outline, gaps_bodyOutline more]

theorem BodyItem.gaps_outline : ∀ item : BodyItem, item.outline.gaps = item.gaps
  | .declaration d => d.gaps_outline
  | .statement s => s.gaps_outline
  | .nested p => p.gaps_outline
  | .skipped _ => rfl

end

def ExternalParams.gaps (params : ExternalParams) : List PlacedFault :=
  Separated.gaps? ScalarSpec.gaps params.types ++ params.closing.gaps

theorem gaps_externalParamsOutline (params : Option ExternalParams) :
    (externalParamsOutline params).gaps = (params.map ExternalParams.gaps).getD [] := by
  cases params with
  | none => rfl
  | some params =>
    simp [externalParamsOutline, ExternalParams.outline, ExternalParams.gaps,
      Separated.gaps_outline? ScalarSpec.gaps_outline]

def External.gaps : External → List PlacedFault
  | .vars _ ty names semicolon => ty.gaps ++ (names.gaps Terminal.gaps ++ semicolon.gaps)
  | .const _ _ ty name semicolon => ty.gaps ++ (name.gaps ++ semicolon.gaps)
  | .procedure _ _ name params semicolon =>
      name.gaps ++ ((params.map ExternalParams.gaps).getD [] ++ semicolon.gaps)
  | .missing _ next => [⟨.invalid "ExternDecl", next.start⟩]

theorem External.gaps_outline (e : External) : e.outline.gaps = e.gaps := by
  cases e <;> simp [External.outline, External.gaps, gaps_externalParamsOutline,
    Separated.gaps_outline Terminal.gaps_outline]

def ProgramItem.gaps : ProgramItem → List PlacedFault
  | .declaration d => d.gaps
  | .procedure p => p.gaps
  | .external e => e.gaps
  | .skipped token => [⟨.invalid "Decl", token.start⟩]

@[simp] theorem ProgramItem.gaps_outline (item : ProgramItem) : item.outline.gaps = item.gaps := by
  cases item with
  | declaration d => exact d.gaps_outline
  | procedure p => exact p.gaps_outline
  | external e => exact e.gaps_outline
  | skipped t => rfl

def Program.gaps (p : Program) : List PlacedFault :=
  p.keyword.gaps ++ (p.name.gaps ++ (p.opening.gaps ++ (p.items.flatMap ProgramItem.gaps ++
    (p.closing.gaps ++ p.ending.gaps))))

theorem Program.gaps_outline (p : Program) : p.outline.gaps = p.gaps := by
  simp [Program.outline, Program.gaps, Outline.gaps_loop]

/-- The faults of grammar that are reported for a program are the gaps of its tree. -/
theorem Program.lower_reports (p : Program) (env : Env) :
    (p.lower env).events.filterMap Event.gap? = p.gaps :=
  (p.lower_recounts env).gaps.trans p.gaps_outline

end SlotLang
