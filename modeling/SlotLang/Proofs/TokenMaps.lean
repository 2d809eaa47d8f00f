import SlotLang.Compile

/-!
# Reading looks at kinds only

How the grammar reads a list of tokens depends on their kinds and on nothing else.  So reading
commutes with every map of tokens that keeps their kinds: the tree of the mapped tokens is the tree
with its tokens mapped.

The texts of some of the tokens in a tree are looked at later on, those of names and numbers.  A map
can therefore treat the places where such tokens stand in a tree in a way of its own, as long as this
makes no difference for names and numbers themselves, which are all that reading puts there.
-/

namespace SlotLang

structure TokenMap where
  token : Token → Token
  /-- The map at the places where the text of a token counts. -/
  text : Token → Token
  kind_token : ∀ t, (token t).kind = t.kind
  text_eq : ∀ t, t.kind = .identifier ∨ t.kind = .number → text t = token t

variable (m : TokenMap)

/-! ## Mapped trees -/

def Terminal.map : Terminal → Terminal
  | read token => read (m.token token)
  | missing kind next => missing kind (m.token next)

def Terminal.mapText : Terminal → Terminal
  | read token => read (m.text token)
  | missing kind next => missing kind (m.token next)

def Separated.map {α : Type} (f : α → α) (items : Separated α) : Separated α :=
  ⟨f items.first, items.others.map fun other => (m.token other.1, f other.2)⟩

def Index.map (i : Index) : Index :=
  ⟨m.token i.opening, i.number.mapText m, i.closing.map m⟩

def MemberRef.map (member : MemberRef) : MemberRef :=
  ⟨m.token member.dot, member.name.mapText m, member.indices.map (Index.map m)⟩

def Designator.map (d : Designator) : Designator :=
  ⟨d.head.mapText m, d.indices.map (Index.map m), d.members.map (MemberRef.map m)⟩

def Expr.map : Expr → Expr
  | missing next => missing (m.token next)
  | number token => number (m.text token)
  | boolean token => boolean (m.token token)
  | designator d => designator (d.map m)
  | negation minus operand => negation (m.token minus) operand.map
  | grouping opening inside closing => grouping (m.token opening) inside.map (closing.map m)
  | relational left op right => relational left.map (m.token op) right.map
  | arithmetic left op right => arithmetic left.map (m.token op) right.map

def ScalarSpec.map : ScalarSpec → ScalarSpec
  | read token => read (m.token token)
  | missing next => missing (m.token next)

def TypeSpec.map : TypeSpec → TypeSpec
  | scalar s => scalar (s.map m)
  | struct keyword name => struct (m.token keyword) (name.mapText m)

def ConstEntry.map (entry : ConstEntry) : ConstEntry :=
  ⟨entry.ty.map m, entry.name.mapText m,
    entry.value.map fun value => (value.1.map m, value.2.map m)⟩

def Declarator.map (d : Declarator) : Declarator :=
  ⟨d.name.mapText m, d.bounds.map (Index.map m)⟩

def StructItem.map : StructItem → StructItem
  | skipped token => skipped (m.token token)
  | member ty name bounds semicolon =>
      member (ty.map m) (name.mapText m) (bounds.map (Index.map m)) (semicolon.map m)

def Declaration.map : Declaration → Declaration
  | const keyword entries semicolon =>
      const (m.token keyword) (entries.map m (ConstEntry.map m)) (semicolon.map m)
  | vars ty declarators semicolon =>
      vars (ty.map m) (declarators.map m (Declarator.map m)) (semicolon.map m)
  | structDef keyword name opening items closing semicolon =>
      structDef (m.token keyword) (name.mapText m) (opening.map m) (items.map (StructItem.map m))
        (closing.map m) (semicolon.map m)

def Condition.map (c : Condition) : Condition :=
  ⟨c.opening.map m, c.test.map m, c.closing.map m⟩

def Assignment.map : Assignment → Assignment
  | complete target becomes value => complete (target.map m) (m.token becomes) (value.map m)
  | broken target next => broken (target.map m) (m.token next)

mutual

def Stmt.map : Stmt → Stmt
  | .missing next => .missing (m.token next)
  | .broken target => .broken (target.map m)
  | .dangling target next => .dangling (target.map m) (m.token next)
  | .assign target becomes value semicolon =>
      .assign (target.map m) (m.token becomes) (value.map m) (semicolon.map m)
  | .choose target becomes guard question first colon second semicolon =>
      .choose (target.map m) (m.token becomes) (guard.map m) (m.token question) (first.map m)
        (colon.map m) (second.map m) (semicolon.map m)
  | .call callee opening arguments closing semicolon =>
      .call (callee.map m) (m.token opening)
        (arguments.map (Separated.map m (Expr.map m))) (closing.map m) (semicolon.map m)
  | .branch keyword condition body => .branch (m.token keyword) (condition.map m) body.map
  | .branchElse keyword condition body otherwise alternative =>
      .branchElse (m.token keyword) (condition.map m) body.map (m.token otherwise) alternative.map
  | .whileLoop keyword condition body =>
      .whileLoop (m.token keyword) (condition.map m) body.map
  | .forLoop keyword opening init afterInit test afterTest step closing body =>
      .forLoop (m.token keyword) (opening.map m) (init.map m) (afterInit.map m) (test.map m)
        (afterTest.map m) (step.map m) (closing.map m) body.map
  | .switch keyword opening subject closing brace cases fallback fallbackBody closingBrace =>
      .switch (m.token keyword) (opening.map m) (subject.map m) (closing.map m) (brace.map m)
        (mapCases cases) (fallback.map fun parts => (m.token parts.1, parts.2.map m))
        (mapStmts fallbackBody) (closingBrace.map m)
  | .read keyword target semicolon => .read (m.token keyword) (target.map m) (semicolon.map m)
  | .write keyword operands semicolon =>
      .write (m.token keyword) (operands.map m (Expr.map m)) (semicolon.map m)
  | .block opening items closing => .block (m.token opening) (mapBlock items) (closing.map m)

def mapStmts : List Stmt → List Stmt
  | [] => []
  | s :: more => s.map :: mapStmts more

def mapCases : List Case → List Case
  | [] => []
  | .mk keyword label colon body :: more =>
      .mk (m.token keyword) (label.map m) (colon.map m) (mapStmts body) :: mapCases more

def mapBlock : List BlockItem → List BlockItem
  | [] => []
  | item :: more => item.map :: mapBlock more

def BlockItem.map : BlockItem → BlockItem
  | .declaration d => .declaration (d.map m)
  | .statement s => .statement s.map
  | .skipped token => .skipped (m.token token)

end

def Param.map (p : Param) : Param := ⟨p.ty.map m, p.name.mapText m⟩

mutual

def Procedure.map : Procedure → Procedure
  | .mk keyword name opening params closing brace body closingBrace =>
      .mk (m.token keyword) (name.mapText m) (opening.map m)
        (params.map (Separated.map m (Param.map m))) (closing.map m) (brace.map m) (mapBody body)
        (closingBrace.map m)

def mapBody : List BodyItem → List BodyItem
  | [] => []
  | item :: more => item.map :: mapBody more

def BodyItem.map : BodyItem → BodyItem
  | .declaration d => .declaration (d.map m)
  | .statement s => .statement (s.map m)
  | .nested p => .nested p.map
  | .skipped token => .skipped (m.token token)

end

def ExternalParams.map (params : ExternalParams) : ExternalParams :=
  ⟨m.token params.opening, params.types.map (Separated.map m (ScalarSpec.map m)),
    params.closing.map m⟩

def External.map : External → External
  | vars keyword ty names semicolon =>
      vars (m.token keyword) (ty.map m) (names.map m (Terminal.mapText m)) (semicolon.map m)
  | const keyword constant ty name semicolon =>
      const (m.token keyword) (m.token constant) (ty.map m) (name.mapText m) (semicolon.map m)
  | procedure keyword mark name params semicolon =>
      procedure (m.token keyword) (m.token mark) (name.mapText m)
        (params.map (ExternalParams.map m)) (semicolon.map m)
  | missing keyword next => missing (m.token keyword) (m.token next)

def ProgramItem.map : ProgramItem → ProgramItem
  | declaration d => declaration (d.map m)
  | procedure p => procedure (p.map m)
  | external e => external (e.map m)
  | skipped token => skipped (m.token token)

def Program.map (p : Program) : Program :=
  ⟨p.keyword.map m, p.name.mapText m, p.opening.map m, p.items.map (ProgramItem.map m),
    p.closing.map m, p.ending.map m⟩

/-! ## Windows -/

def Window.map (w : Window) : Window := ⟨w.rest.map m.token, m.token w.ending⟩

namespace Window

variable {m} {α : Type} {w : Window}

@[simp] theorem ahead_map : (w.map m).ahead = m.token w.ahead := by
  obtain ⟨rest, ending⟩ := w
  cases rest <;> rfl

@[simp] theorem kind_map : (w.map m).kind = w.kind := by
  rw [kind, ahead_map, m.kind_token]
  rfl

@[simp] theorem advance_map : (w.map m).advance = w.advance.map m := by
  simp [map, advance]

@[simp] theorem atListEnd_map : (w.map m).atListEnd = w.atListEnd := by
  simp [atListEnd]

@[simp] theorem budget_map : (w.map m).budget = w.budget := by
  simp [budget, size, map]

@[simp] theorem expect_map (k : TokenKind) :
    (w.map m).expect k = ((w.expect k).1.map m, (w.expect k).2.map m) := by
  by_cases hkind : w.kind = k <;> simp [expect, hkind, Terminal.map]

theorem expect_of_kind {k : TokenKind} (h : w.kind = k) :
    w.expect k = (.read w.ahead, w.advance) := if_pos h

theorem expect_of_kind_ne {k : TokenKind} (h : w.kind ≠ k) :
    w.expect k = (.missing k w.ahead, w) := if_neg h

/-- Names and numbers stand where their texts count. -/
theorem map_expect {k : TokenKind} (hk : k = .identifier ∨ k = .number) :
    (w.expect k).1.map m = (w.expect k).1.mapText m := by
  by_cases hkind : w.kind = k
  · have htext := m.text_eq w.ahead (by rwa [← hkind] at hk)
    simp [expect_of_kind hkind, Terminal.map, Terminal.mapText, htext]
  · simp [expect_of_kind_ne hkind, Terminal.map, Terminal.mapText]

@[simp] theorem map_expect_identifier :
    (w.expect .identifier).1.map m = (w.expect .identifier).1.mapText m := map_expect (.inl rfl)

@[simp] theorem map_expect_number :
    (w.expect .number).1.map m = (w.expect .number).1.mapText m := map_expect (.inr rfl)

theorem text_ahead (h : w.kind = .identifier ∨ w.kind = .number) :
    m.token w.ahead = m.text w.ahead := (m.text_eq w.ahead h).symm

/-- Reading an item gives the mapped item for the mapped window. -/
def Commutes (m : TokenMap) (f : α → α) (item : Window → α × Window) : Prop :=
  ∀ w, item (w.map m) = (f (item w).1, (item w).2.map m)

theorem moreItems_map {item : Window → α × Window} {f : α → α} (h : Commutes m f item)
    (steps : Nat) (w : Window) : (w.map m).moreItems item steps =
      ((w.moreItems item steps).1.map fun other => (m.token other.1, f other.2),
        (w.moreItems item steps).2.map m) := by
  induction steps generalizing w with
  | zero => rfl
  | succ steps ih =>
    by_cases hkind : w.kind = .comma
    · simp [moreItems, hkind, h _, ih]
    · simp [moreItems, hkind]

theorem separated_map {item : Window → α × Window} {f : α → α} (h : Commutes m f item)
    (steps : Nat) (w : Window) : (w.map m).separated item steps =
      ((w.separated item steps).1.map m f, (w.separated item steps).2.map m) := by
  simp [separated, h _, moreItems_map h, Separated.map]

theorem separatedUnlessClosed_map {item : Window → α × Window} {f : α → α} (h : Commutes m f item)
    (steps : Nat) (w : Window) : (w.map m).separatedUnlessClosed item steps =
      ((w.separatedUnlessClosed item steps).1.map (Separated.map m f),
        (w.separatedUnlessClosed item steps).2.map m) := by
  by_cases hkind : w.kind = .closeParen
  · simp [separatedUnlessClosed, hkind]
  · simp [separatedUnlessClosed, hkind, separated_map h]

/-! ## Expressions -/

@[simp] theorem readIndices_map (steps : Nat) (w : Window) : (w.map m).readIndices steps =
    ((w.readIndices steps).1.map (Index.map m), (w.readIndices steps).2.map m) := by
  induction steps generalizing w with
  | zero => rfl
  | succ steps ih =>
    by_cases hkind : w.kind = .openBracket
    · simp [readIndices, hkind, ih, Index.map]
    · simp [readIndices, hkind]

@[simp] theorem readMembers_map (steps : Nat) (w : Window) : (w.map m).readMembers steps =
    ((w.readMembers steps).1.map (MemberRef.map m), (w.readMembers steps).2.map m) := by
  induction steps generalizing w with
  | zero => rfl
  | succ steps ih =>
    by_cases hkind : w.kind = .dot
    · by_cases hname : w.advance.kind = .identifier
      · simp [readMembers, hkind, expect_of_kind hname, ih, MemberRef.map, Terminal.map,
          Terminal.mapText, text_ahead (.inl hname)]
      · simp [readMembers, hkind, expect_of_kind_ne hname, MemberRef.map, Terminal.map,
          Terminal.mapText]
    · simp [readMembers, hkind]

@[simp] theorem readDesignator_map (steps : Nat) (w : Window) : (w.map m).readDesignator steps =
    ((w.readDesignator steps).1.map m, (w.readDesignator steps).2.map m) := by
  by_cases hname : w.kind = .identifier
  · simp [readDesignator, expect_of_kind hname, Designator.map, Terminal.map, Terminal.mapText,
      text_ahead (.inl hname)]
  · simp [readDesignator, expect_of_kind_ne hname, Designator.map, Terminal.map, Terminal.mapText]

theorem operation_map (form : OperatorForm) (left : Expr) (op : Token) (right : Expr) :
    (Expr.operation form left op right).map m =
      Expr.operation form (left.map m) (m.token op) (right.map m) := by
  cases form <;> rfl

theorem kind_of_numberForm {g : Grammar} {k : TokenKind} (h : g.factorForm? k = some .number) :
    k = .number := by
  cases g <;> cases k <;> simp_all [Grammar.factorForm?]

structure ExprsMap (m : TokenMap) (g : Grammar) (steps : Nat) : Prop where
  expr : ∀ (power : Power) (w : Window), (w.map m).readExpr g steps power =
    ((w.readExpr g steps power).1.map m, (w.readExpr g steps power).2.map m)
  factor : ∀ (form : FactorForm) (w : Window), g.factorForm? w.kind = some form →
    (w.map m).readFactor g steps form =
      ((w.readFactor g steps form).1.map m, (w.readFactor g steps form).2.map m)
  operators : ∀ (power : Power) (left : Expr) (w : Window),
    (w.map m).readOperators g steps power (left.map m) =
      ((w.readOperators g steps power left).1.map m,
        (w.readOperators g steps power left).2.map m)

theorem exprsMap (m : TokenMap) (g : Grammar) (steps : Nat) : ExprsMap m g steps := by
  induction steps with
  | zero =>
    refine ⟨?_, ?_, ?_⟩
    · intro power w
      simp [readExpr, Expr.map]
    · intro form w hform
      cases form with
      | number =>
        simp [readFactor, Expr.map, text_ahead (.inr (kind_of_numberForm hform))]
      | boolean | designator | negation | grouping => simp [readFactor, Expr.map]
    · intro power left w
      simp [readOperators]
  | succ steps ih =>
    refine ⟨?_, ?_, ?_⟩
    · intro power w
      simp only [readExpr, kind_map]
      cases hform : g.factorForm? w.kind with
      | none => simp [Expr.map]
      | some form => simp only [ih.factor form w hform, ih.operators]
    · intro form w hform
      cases form with
      | number =>
        simp [readFactor, Expr.map, text_ahead (.inr (kind_of_numberForm hform))]
      | boolean | designator => simp [readFactor, Expr.map]
      | negation | grouping => simp [readFactor, Expr.map, ih.expr]
    · intro power left w
      simp only [readOperators, kind_map, advance_map, ahead_map]
      cases g.operator? w.kind with
      | none => rfl
      | some op =>
        dsimp only
        split
        · simp only [ih.expr, ← operation_map, ih.operators]
        · rfl

@[simp] theorem readExpr_map (g : Grammar) (steps : Nat) (power : Power) (w : Window) :
    (w.map m).readExpr g steps power =
      ((w.readExpr g steps power).1.map m, (w.readExpr g steps power).2.map m) :=
  (exprsMap m g steps).expr power w

/-! ## Declarations -/

@[simp] theorem readScalarSpec_map (w : Window) :
    (w.map m).readScalarSpec = (w.readScalarSpec.1.map m, w.readScalarSpec.2.map m) := by
  by_cases hkind : w.kind = .kwInt ∨ w.kind = .kwBool <;>
    simp [readScalarSpec, hkind, ScalarSpec.map]

@[simp] theorem readTypeSpec_map (w : Window) :
    (w.map m).readTypeSpec = (w.readTypeSpec.1.map m, w.readTypeSpec.2.map m) := by
  by_cases hkind : w.kind = .kwStruct <;> simp [readTypeSpec, hkind, TypeSpec.map]

theorem readConstEntry_commutes (g : Grammar) (steps : Nat) :
    Commutes m (ConstEntry.map m) (readConstEntry g steps) := by
  intro w
  by_cases hname : w.readScalarSpec.2.kind = .identifier
  · simp [readConstEntry, expect_of_kind hname, ConstEntry.map, Terminal.map, Terminal.mapText,
      text_ahead (.inl hname)]
  · simp [readConstEntry, expect_of_kind_ne hname, ConstEntry.map, Terminal.map, Terminal.mapText]

theorem readDeclarator_commutes (steps : Nat) :
    Commutes m (Declarator.map m) (readDeclarator steps) := by
  intro w
  by_cases hname : w.kind = .identifier
  · simp [readDeclarator, expect_of_kind hname, Declarator.map, Terminal.map, Terminal.mapText,
      text_ahead (.inl hname)]
  · simp [readDeclarator, expect_of_kind_ne hname, Declarator.map, Terminal.map, Terminal.mapText]

theorem readConst_map (g : Grammar) (steps : Nat) (w : Window) : (w.map m).readConst g steps =
    ((w.readConst g steps).1.map m, (w.readConst g steps).2.map m) := by
  simp [readConst, separated_map (readConstEntry_commutes g steps), Declaration.map]

theorem readDeclarators_map (steps : Nat) (ty : TypeSpec) (w : Window) :
    (w.map m).readDeclarators steps (ty.map m) =
      ((w.readDeclarators steps ty).1.map m, (w.readDeclarators steps ty).2.map m) := by
  simp [readDeclarators, separated_map (readDeclarator_commutes steps), Declaration.map]

theorem readVars_map (steps : Nat) (w : Window) : (w.map m).readVars steps =
    ((w.readVars steps).1.map m, (w.readVars steps).2.map m) := by
  simp [readVars, readDeclarators_map]

@[simp] theorem readStructItems_map (steps : Nat) (w : Window) : (w.map m).readStructItems steps =
    ((w.readStructItems steps).1.map (StructItem.map m), (w.readStructItems steps).2.map m) := by
  induction steps generalizing w with
  | zero => rfl
  | succ steps ih =>
    simp only [readStructItems, atListEnd_map, kind_map]
    split
    · rfl
    · split <;> simp [ih, StructItem.map]

theorem readStruct_map (steps : Nat) (w : Window) : (w.map m).readStruct steps =
    ((w.readStruct steps).1.map m, (w.readStruct steps).2.map m) := by
  have hty : ∀ name : Terminal, TypeSpec.struct (m.token w.ahead) (name.mapText m) =
      (TypeSpec.struct w.ahead name).map m := fun _ => rfl
  by_cases hkind : (w.advance.expect .identifier).2.kind = .openCurly
  · simp [readStruct, hkind, Declaration.map]
  · simp [readStruct, hkind, hty, readDeclarators_map]

theorem readDeclaration?_map (g : Grammar) (steps : Nat) (w : Window) :
    (w.map m).readDeclaration? g steps =
      (w.readDeclaration? g steps).map fun found => (found.1.map m, found.2.map m) := by
  simp only [readDeclaration?, kind_map]
  cases w.kind <;> simp [readConst_map, readVars_map, readStruct_map]

/-! ## Statements -/

@[simp] theorem readCondition_map (g : Grammar) (steps : Nat) (w : Window) :
    (w.map m).readCondition g steps =
      ((w.readCondition g steps).1.map m, (w.readCondition g steps).2.map m) := by
  simp [readCondition, Condition.map]

@[simp] theorem readAssignment_map (g : Grammar) (steps : Nat) (w : Window) :
    (w.map m).readAssignment g steps =
      ((w.readAssignment g steps).1.map m, (w.readAssignment g steps).2.map m) := by
  by_cases hkind : (w.readDesignator steps).2.kind = .assignment
  · simp [readAssignment, expect_of_kind hkind, Assignment.map, Terminal.map]
  · simp [readAssignment, expect_of_kind_ne hkind, Assignment.map, Terminal.map]

theorem readAssign_map (g : Grammar) (steps : Nat) (target : Designator) (w : Window) :
    (w.map m).readAssign g steps (target.map m) =
      ((w.readAssign g steps target).1.map m, (w.readAssign g steps target).2.map m) := by
  by_cases hkind : (w.advance.readExpr g steps .lowest).2.kind = .question <;>
    simp [readAssign, hkind, Stmt.map]

theorem readCall_map (g : Grammar) (steps : Nat) (callee : Designator) (w : Window) :
    (w.map m).readCall g steps (callee.map m) =
      ((w.readCall g steps callee).1.map m, (w.readCall g steps callee).2.map m) := by
  have harguments : Commutes m (Expr.map m) fun w => w.readExpr g steps .lowest :=
    readExpr_map g steps .lowest
  simp [readCall, separatedUnlessClosed_map harguments, Stmt.map]

theorem isSome_membersText? (members : List MemberRef) :
    (Designator.membersText? members).isSome =
      members.all fun member => member.name.value?.isSome := by
  induction members with
  | nil => rfl
  | cons member members ih =>
    rw [Designator.membersText?, List.all_cons, ← ih]
    cases member.name.value? with
    | none => rfl
    | some name => cases Designator.membersText? members <;> rfl

theorem isSome_name? (d : Designator) : d.name?.isSome =
    (d.head.value?.isSome && d.members.all fun member => member.name.value?.isSome) := by
  rw [Designator.name?, ← isSome_membersText?]
  cases d.head.value? with
  | none => rfl
  | some head => cases Designator.membersText? d.members <;> rfl

/-- Whether a part of a designator is missing does not depend on its texts. -/
theorem isSome_name?_map (d : Designator) : (d.map m).name?.isSome = d.name?.isSome := by
  have hname : ∀ t : Terminal, (t.mapText m).value?.isSome = t.value?.isSome := by
    rintro (token | ⟨kind, next⟩) <;> rfl
  simp [isSome_name?, Designator.map, MemberRef.map, hname, List.all_map, Function.comp_def]

theorem readDesignatorStmt_map (g : Grammar) (steps : Nat) (w : Window) :
    (w.map m).readDesignatorStmt g steps =
      ((w.readDesignatorStmt g steps).1.map m, (w.readDesignatorStmt g steps).2.map m) := by
  have hsome := isSome_name?_map (m := m) (w.readDesignator steps).1
  simp only [readDesignatorStmt, readDesignator_map, kind_map, ahead_map]
  cases hname : (w.readDesignator steps).1.name? with
  | none =>
    have hnone : ((w.readDesignator steps).1.map m).name? = none := by simpa [hname] using hsome
    simp [hnone, Stmt.map]
  | some name =>
    rw [hname, Option.isSome_some, Option.isSome_iff_exists] at hsome
    obtain ⟨name', hname'⟩ := hsome
    simp only [hname']
    split
    · exact readAssign_map g steps _ _
    · exact readCall_map g steps _ _
    · simp [Stmt.map]

theorem readRead_map (steps : Nat) (w : Window) : (w.map m).readRead steps =
    ((w.readRead steps).1.map m, (w.readRead steps).2.map m) := by
  simp [readRead, Stmt.map]

theorem readWrite_map (g : Grammar) (steps : Nat) (w : Window) : (w.map m).readWrite g steps =
    ((w.readWrite g steps).1.map m, (w.readWrite g steps).2.map m) := by
  have hoperands : Commutes m (Expr.map m) fun w => w.readExpr g steps .lowest :=
    readExpr_map g steps .lowest
  simp [readWrite, separated_map hoperands, Stmt.map]

structure StmtsMap (m : TokenMap) (g : Grammar) (steps : Nat) : Prop where
  stmt : ∀ w : Window, (w.map m).readStmt g steps =
    ((w.readStmt g steps).1.map m, (w.readStmt g steps).2.map m)
  form : ∀ (form : StmtForm) (w : Window), (w.map m).readStmtForm g steps form =
    ((w.readStmtForm g steps form).1.map m, (w.readStmtForm g steps form).2.map m)
  stmts : ∀ w : Window, (w.map m).readStmts g steps =
    (mapStmts m (w.readStmts g steps).1, (w.readStmts g steps).2.map m)
  cases : ∀ w : Window, (w.map m).readCases g steps =
    (mapCases m (w.readCases g steps).1, (w.readCases g steps).2.map m)
  block : ∀ w : Window, (w.map m).readBlockItems g steps =
    (mapBlock m (w.readBlockItems g steps).1, (w.readBlockItems g steps).2.map m)

theorem StmtsMap.readStmtForm {g : Grammar} {steps : Nat} (ih : StmtsMap m g steps)
    (form : StmtForm) (w : Window) : (w.map m).readStmtForm g (steps + 1) form =
      ((w.readStmtForm g (steps + 1) form).1.map m,
        (w.readStmtForm g (steps + 1) form).2.map m) := by
  cases form with
  | designator => exact readDesignatorStmt_map g steps w
  | branch =>
    simp only [Window.readStmtForm, advance_map, readCondition_map, ih.stmt, kind_map]
    split <;> simp [Stmt.map]
  | whileLoop => simp [Window.readStmtForm, ih.stmt, Stmt.map]
  | forLoop => simp [Window.readStmtForm, ih.stmt, Stmt.map]
  | switch =>
    simp only [Window.readStmtForm, advance_map, expect_map, readExpr_map, ih.cases, kind_map]
    split <;> simp [ih.stmts, Stmt.map, mapStmts]
  | read => exact readRead_map steps w
  | write => exact readWrite_map g steps w
  | block => simp [Window.readStmtForm, ih.block, Stmt.map]

theorem stmtsMap (m : TokenMap) (g : Grammar) (steps : Nat) : StmtsMap m g steps := by
  induction steps with
  | zero =>
    refine ⟨?_, ?_, ?_, ?_, ?_⟩ <;> intros <;>
      simp [readStmt, readStmtForm, readStmts, readCases, readBlockItems, Stmt.map, mapStmts,
        mapCases, mapBlock]
  | succ steps ih =>
    refine ⟨?_, ih.readStmtForm, ?_, ?_, ?_⟩
    · intro w
      simp only [readStmt, kind_map]
      cases g.stmtForm? w.kind with
      | none => simp [Stmt.map]
      | some form => exact ih.form form w
    · intro w
      simp only [readStmts, kind_map]
      split <;> simp [ih.stmt, ih.stmts, mapStmts]
    · intro w
      simp only [readCases, kind_map]
      split <;> simp [ih.stmts, ih.cases, mapCases]
    · intro w
      simp only [readBlockItems, kind_map, atListEnd_map, readDeclaration?_map]
      split
      · rfl
      · cases w.readDeclaration? g steps with
        | some found => simp [ih.block, mapBlock, BlockItem.map]
        | none =>
          dsimp only [Option.map_none]
          split <;> simp [ih.stmt, ih.block, mapBlock, BlockItem.map]

@[simp] theorem readStmt_map (g : Grammar) (steps : Nat) (w : Window) :
    (w.map m).readStmt g steps = ((w.readStmt g steps).1.map m, (w.readStmt g steps).2.map m) :=
  (stmtsMap m g steps).stmt w

/-! ## Procedures and programs -/

theorem readParam_commutes : Commutes m (Param.map m) readParam := by
  intro w
  simp [readParam, Param.map]

structure BodiesMap (m : TokenMap) (g : Grammar) (steps : Nat) : Prop where
  procedure : ∀ w : Window, (w.map m).readProcedure g steps =
    ((w.readProcedure g steps).1.map m, (w.readProcedure g steps).2.map m)
  body : ∀ w : Window, (w.map m).readBodyItems g steps =
    (mapBody m (w.readBodyItems g steps).1, (w.readBodyItems g steps).2.map m)

theorem bodiesMap (m : TokenMap) (g : Grammar) (steps : Nat) : BodiesMap m g steps := by
  induction steps with
  | zero =>
    refine ⟨?_, ?_⟩ <;> intro w
    · simp [readProcedure, Procedure.map, Terminal.map, Terminal.mapText, mapBody]
    · simp [readBodyItems, mapBody]
  | succ steps ih =>
    refine ⟨?_, ?_⟩ <;> intro w
    · simp [readProcedure, separatedUnlessClosed_map readParam_commutes, ih.body, Procedure.map]
    · simp only [readBodyItems, kind_map, atListEnd_map, readDeclaration?_map]
      split
      · rfl
      · cases w.readDeclaration? g steps with
        | some found => simp [ih.body, mapBody, BodyItem.map]
        | none =>
          dsimp only [Option.map_none]
          split
          · simp [ih.procedure, ih.body, mapBody, BodyItem.map]
          · split <;> simp [ih.body, mapBody, BodyItem.map]

@[simp] theorem readProcedure_map (g : Grammar) (steps : Nat) (w : Window) :
    (w.map m).readProcedure g steps =
      ((w.readProcedure g steps).1.map m, (w.readProcedure g steps).2.map m) :=
  (bodiesMap m g steps).procedure w

theorem readExternalParams?_map (steps : Nat) (w : Window) : (w.map m).readExternalParams? steps =
    ((w.readExternalParams? steps).1.map (ExternalParams.map m),
      (w.readExternalParams? steps).2.map m) := by
  have htypes : Commutes m (ScalarSpec.map m) readScalarSpec := readScalarSpec_map
  by_cases hkind : w.kind = .openParen
  · simp [readExternalParams?, hkind, separatedUnlessClosed_map htypes, ExternalParams.map]
  · simp [readExternalParams?, hkind]

theorem readExternal_map (steps : Nat) (w : Window) : (w.map m).readExternal steps =
    ((w.readExternal steps).1.map m, (w.readExternal steps).2.map m) := by
  have hnames : Commutes m (Terminal.mapText m) fun w => w.expect .identifier := by
    intro w
    simp
  simp only [readExternal, advance_map, kind_map]
  split
  · simp [separated_map hnames, External.map]
  · simp [separated_map hnames, External.map]
  · simp [External.map]
  · by_cases hname : w.advance.advance.kind = .identifier
    · simp [expect_of_kind hname, readExternalParams?_map, External.map, Terminal.map,
        Terminal.mapText, text_ahead (.inl hname)]
    · simp [expect_of_kind_ne hname, External.map, Terminal.map, Terminal.mapText]
  · simp [External.map]

@[simp] theorem readProgramItems_map (g : Grammar) (steps : Nat) (w : Window) :
    (w.map m).readProgramItems g steps =
      ((w.readProgramItems g steps).1.map (ProgramItem.map m),
        (w.readProgramItems g steps).2.map m) := by
  induction steps generalizing w with
  | zero => rfl
  | succ steps ih =>
    simp only [readProgramItems, kind_map, atListEnd_map, readDeclaration?_map]
    split
    · rfl
    · cases w.readDeclaration? g steps with
      | some found => simp [ih, ProgramItem.map]
      | none =>
        dsimp only [Option.map_none]
        split
        · simp [ih, ProgramItem.map]
        · split <;> simp [ih, readExternal_map, ProgramItem.map]

/-- The program of the mapped tokens is the mapped program of the tokens. -/
theorem readProgram_map (g : Grammar) (steps : Nat) (w : Window) :
    (w.map m).readProgram g steps =
      ((w.readProgram g steps).1.map m, (w.readProgram g steps).2.map m) := by
  simp [readProgram, Program.map]

end Window
end SlotLang
