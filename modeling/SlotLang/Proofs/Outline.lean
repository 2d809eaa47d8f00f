import SlotLang.Compile

/-!
# Outlines

The outline of a tree forgets which phrases its parts are.  What stays are the leaves from left to
right and the rounds of the loops that read them.  A leaf is a token that was read, or a fault of
grammar in front of a token that was not.  A round is what one pass through a loop has read: an index
of a designator, an operator with its right operand, an item behind a comma, or an item of a list
in braces.
-/

namespace SlotLang

inductive Leaf where
  | token (t : Token)
  /-- A fault of grammar that was noticed in front of `next`. -/
  | gap (fault : Fault) (next : Token)
  deriving DecidableEq, Repr

namespace Leaf

def token? : Leaf → Option Token
  | token t => some t
  | gap _ _ => none

def gap? : Leaf → Option PlacedFault
  | token _ => none
  | gap fault next => some ⟨fault, next.start⟩

end Leaf

inductive Outline where
  | empty
  | leaf (l : Leaf)
  | append (first second : Outline)
  /-- One round of a loop, and what comes behind it. -/
  | round (body more : Outline)
  deriving DecidableEq, Repr

namespace Outline

instance : Append Outline := ⟨append⟩

def token (t : Token) : Outline := leaf (.token t)

def gap (fault : Fault) (next : Token) : Outline := leaf (.gap fault next)

/-- A loop with one round for each item. -/
def loop {α : Type} (body : α → Outline) : List α → Outline
  | [] => empty
  | a :: more => round (body a) (loop body more)

def leaves : Outline → List Leaf
  | empty => []
  | leaf l => [l]
  | append first second => first.leaves ++ second.leaves
  | round body more => body.leaves ++ more.leaves

/-- The tokens that were read. -/
def tokens (o : Outline) : List Token := o.leaves.filterMap Leaf.token?

/-- The faults of grammar. -/
def gaps (o : Outline) : List PlacedFault := o.leaves.filterMap Leaf.gap?

/-- Every round of every loop has read a token. -/
def Progresses : Outline → Prop
  | empty | leaf _ => True
  | append first second => first.Progresses ∧ second.Progresses
  | round body more => body.tokens ≠ [] ∧ body.Progresses ∧ more.Progresses

@[simp] theorem leaves_append (a b : Outline) : (a ++ b).leaves = a.leaves ++ b.leaves := rfl

@[simp] theorem tokens_append (a b : Outline) : (a ++ b).tokens = a.tokens ++ b.tokens := by
  simp [tokens]

@[simp] theorem tokens_empty : empty.tokens = [] := rfl

@[simp] theorem tokens_token (t : Token) : (token t).tokens = [t] := rfl

theorem tokens_round (body more : Outline) :
    (round body more).tokens = body.tokens ++ more.tokens := by
  simp [tokens, leaves]

theorem tokens_loop {α : Type} (body : α → Outline) (items : List α) :
    (loop body items).tokens = items.flatMap fun a => (body a).tokens := by
  induction items with
  | nil => rfl
  | cons a items ih => simp [loop, tokens_round, ih]

@[simp] theorem gaps_empty : empty.gaps = [] := rfl

@[simp] theorem gaps_token (t : Token) : (token t).gaps = [] := rfl

@[simp] theorem gaps_gap (fault : Fault) (next : Token) :
    (gap fault next).gaps = [⟨fault, next.start⟩] := rfl

@[simp] theorem gaps_append (a b : Outline) : (a ++ b).gaps = a.gaps ++ b.gaps := by
  simp [gaps]

@[simp] theorem gaps_round (body more : Outline) :
    (round body more).gaps = body.gaps ++ more.gaps := by
  simp [gaps, leaves]

theorem gaps_loop {α : Type} (body : α → Outline) (items : List α) :
    (loop body items).gaps = items.flatMap fun a => (body a).gaps := by
  induction items with
  | nil => rfl
  | cons a items ih => simp [loop, ih]

end Outline

open Outline

/-! ## Designators and expressions -/

def Terminal.outline : Terminal → Outline
  | .read t => token t
  | .missing kind next => gap (.expected kind.describe) next

def Index.outline (i : Index) : Outline :=
  token i.opening ++ (i.number.outline ++ i.closing.outline)

def MemberRef.outline (m : MemberRef) : Outline :=
  token m.dot ++ (m.name.outline ++ loop Index.outline m.indices)

def Designator.outline (d : Designator) : Outline :=
  d.head.outline ++ (loop Index.outline d.indices ++ loop MemberRef.outline d.members)

/-- Each operator of a chain is a round of the loop that reads the chain. -/
def Expr.outline : Expr → Outline
  | .missing next => gap (.invalid "Factor") next
  | .number t | .boolean t => token t
  | .designator d => d.outline
  | .negation minus operand => token minus ++ operand.outline
  | .grouping opening content closing => token opening ++ (content.outline ++ closing.outline)
  | .relational left op right | .arithmetic left op right =>
      left.outline ++ round (token op ++ right.outline) empty

namespace Separated

variable {α : Type}

def outline (item : α → Outline) (items : Separated α) : Outline :=
  item items.first ++ loop (fun other => token other.1 ++ item other.2) items.others

def outline? (item : α → Outline) : Option (Separated α) → Outline
  | none => empty
  | some items => items.outline item

end Separated

/-! ## Declarations -/

def ScalarSpec.outline : ScalarSpec → Outline
  | .read t => token t
  | .missing next => gap (.invalid "Type") next

def TypeSpec.outline : TypeSpec → Outline
  | .scalar s => s.outline
  | .struct keyword name => token keyword ++ name.outline

/-- A constant without a name has no value that could have been read. -/
def ConstEntry.outline (entry : ConstEntry) : Outline :=
  entry.ty.outline ++ (entry.name.outline ++
    match entry.name.value?, entry.value with
    | some _, some (becomes, value) => becomes.outline ++ value.outline
    | _, _ => empty)

def Declarator.outline (d : Declarator) : Outline :=
  d.name.outline ++ loop Index.outline d.bounds

/-- A token that no item starts with is refused and passed. -/
def skippedOutline (production : String) (t : Token) : Outline :=
  gap (.invalid production) t ++ token t

def StructItem.outline : StructItem → Outline
  | .skipped t => skippedOutline "Decl" t
  | .member ty name bounds semicolon =>
      ty.outline ++ (name.outline ++ (loop Index.outline bounds ++ semicolon.outline))

def Declaration.outline : Declaration → Outline
  | .const keyword entries semicolon =>
      token keyword ++ (entries.outline ConstEntry.outline ++ semicolon.outline)
  | .vars ty declarators semicolon =>
      ty.outline ++ (declarators.outline Declarator.outline ++ semicolon.outline)
  | .structDef keyword name opening items closing semicolon =>
      token keyword ++ (name.outline ++ (opening.outline ++
        (loop StructItem.outline items ++ (closing.outline ++ semicolon.outline))))

/-! ## Statements -/

def Condition.outline (c : Condition) : Outline :=
  c.opening.outline ++ (c.test.outline ++ c.closing.outline)

def Assignment.outline : Assignment → Outline
  | .complete target becomes value => target.outline ++ (token becomes ++ value.outline)
  | .broken target next => target.outline ++ gap (.expected TokenKind.assignment.describe) next

def fallbackOutline : Option (Token × Terminal) → Outline
  | none => empty
  | some (keyword, colon) => token keyword ++ colon.outline

mutual

def Stmt.outline : Stmt → Outline
  | .missing next => gap (.invalid "Stat") next
  | .broken target => target.outline
  | .dangling target next => target.outline ++ gap (.invalid "Stat") next
  | .assign target becomes value semicolon =>
      target.outline ++ (token becomes ++ (value.outline ++ semicolon.outline))
  | .choose target becomes guard question first colon second semicolon =>
      target.outline ++ (token becomes ++ (guard.outline ++ (token question ++ (first.outline ++
        (colon.outline ++ (second.outline ++ semicolon.outline))))))
  | .call callee opening arguments closing semicolon =>
      callee.outline ++ (token opening ++ (Separated.outline? Expr.outline arguments ++
        (closing.outline ++ semicolon.outline)))
  | .branch keyword condition body => token keyword ++ (condition.outline ++ body.outline)
  | .branchElse keyword condition body otherwise alternative =>
      token keyword ++ (condition.outline ++ (body.outline ++
        (token otherwise ++ alternative.outline)))
  | .whileLoop keyword condition body => token keyword ++ (condition.outline ++ body.outline)
  | .forLoop keyword opening init afterInit test afterTest step closing body =>
      token keyword ++ (opening.outline ++ (init.outline ++ (afterInit.outline ++ (test.outline ++
        (afterTest.outline ++ (step.outline ++ (closing.outline ++ body.outline)))))))
  | .switch keyword opening subject closing brace cases fallback fallbackBody closingBrace =>
      token keyword ++ (opening.outline ++ (subject.outline ++ (closing.outline ++ (brace.outline ++
        (casesOutline cases ++ (fallbackOutline fallback ++ (stmtsOutline fallbackBody ++
          closingBrace.outline)))))))
  | .read keyword target semicolon => token keyword ++ (target.outline ++ semicolon.outline)
  | .write keyword operands semicolon =>
      token keyword ++ (operands.outline Expr.outline ++ semicolon.outline)
  | .block opening items closing => token opening ++ (blockOutline items ++ closing.outline)

def stmtsOutline : List Stmt → Outline
  | [] => empty
  | s :: more => round s.outline (stmtsOutline more)

def casesOutline : List Case → Outline
  | [] => empty
  | .mk keyword label colon body :: more =>
      round (token keyword ++ (label.outline ++ (colon.outline ++ stmtsOutline body)))
        (casesOutline more)

def blockOutline : List BlockItem → Outline
  | [] => empty
  | item :: more => round item.outline (blockOutline more)

def BlockItem.outline : BlockItem → Outline
  | .declaration d => d.outline
  | .statement s => s.outline
  | .skipped t => skippedOutline "Stat" t

end

/-! ## Procedures and programs -/

def Param.outline (p : Param) : Outline := p.ty.outline ++ p.name.outline

mutual

def Procedure.outline : Procedure → Outline
  | .mk keyword name opening params closing brace body closingBrace =>
      token keyword ++ (name.outline ++ (opening.outline ++ (Separated.outline? Param.outline params ++
        (closing.outline ++ (brace.outline ++ (bodyOutline body ++ closingBrace.outline))))))

def bodyOutline : List BodyItem → Outline
  | [] => empty
  | item :: more => round item.outline (bodyOutline more)

def BodyItem.outline : BodyItem → Outline
  | .declaration d => d.outline
  | .statement s => s.outline
  | .nested p => p.outline
  | .skipped t => skippedOutline "Stat" t

end

def ExternalParams.outline (params : ExternalParams) : Outline :=
  token params.opening ++ (Separated.outline? ScalarSpec.outline params.types ++
    params.closing.outline)

def externalParamsOutline : Option ExternalParams → Outline
  | none => empty
  | some params => params.outline

def External.outline : External → Outline
  | .vars keyword ty names semicolon =>
      token keyword ++ (ty.outline ++ (names.outline Terminal.outline ++ semicolon.outline))
  | .const keyword constant ty name semicolon =>
      token keyword ++ (token constant ++ (ty.outline ++ (name.outline ++ semicolon.outline)))
  | .procedure keyword mark name params semicolon =>
      token keyword ++ (token mark ++ (name.outline ++ (externalParamsOutline params ++
        semicolon.outline)))
  | .missing keyword next => token keyword ++ gap (.invalid "ExternDecl") next

def ProgramItem.outline : ProgramItem → Outline
  | .declaration d => d.outline
  | .procedure p => p.outline
  | .external e => e.outline
  | .skipped t => skippedOutline "Decl" t

def Program.outline (p : Program) : Outline :=
  p.keyword.outline ++ (p.name.outline ++ (p.opening.outline ++
    (loop ProgramItem.outline p.items ++ (p.closing.outline ++ p.ending.outline))))

end SlotLang
