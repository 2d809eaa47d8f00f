import SlotLang.Grammar.Declaration

/-!
# Statements

A statement is read by the form that the token ahead opens.  Each form can also be read by itself,
whatever token is ahead.  A statement that starts with a designator is an assignment, a conditional
assignment or a call, and the token behind the designator tells which.
-/

namespace SlotLang

/-- An expression in parentheses that decides a branch or a loop. -/
structure Condition where
  opening : Terminal
  test : Expr
  closing : Terminal
  deriving DecidableEq, Repr

/-- An assignment in the head of a loop. -/
inductive Assignment where
  | complete (target : Designator) (becomes : Token) (value : Expr)
  /-- Without `:=` in front of `next` there is no value either. -/
  | broken (target : Designator) (next : Token)
  deriving DecidableEq, Repr

mutual

inductive Stmt where
  /-- No statement starts with `next`. -/
  | missing (next : Token)
  /-- The designator that should start the statement lacks a part. -/
  | broken (target : Designator)
  /-- The designator is followed by neither `:=` nor a parenthesis. -/
  | dangling (target : Designator) (next : Token)
  | assign (target : Designator) (becomes : Token) (value : Expr) (semicolon : Terminal)
  | choose (target : Designator) (becomes : Token) (guard : Expr) (question : Token) (first : Expr)
      (colon : Terminal) (second : Expr) (semicolon : Terminal)
  | call (callee : Designator) (opening : Token) (arguments : Option (Separated Expr))
      (closing semicolon : Terminal)
  | branch (keyword : Token) (condition : Condition) (body : Stmt)
  | branchElse (keyword : Token) (condition : Condition) (body : Stmt) (otherwise : Token)
      (alternative : Stmt)
  | whileLoop (keyword : Token) (condition : Condition) (body : Stmt)
  | forLoop (keyword : Token) (opening : Terminal) (init : Assignment) (afterInit : Terminal)
      (test : Expr) (afterTest : Terminal) (step : Assignment) (closing : Terminal) (body : Stmt)
  | switch (keyword : Token) (opening : Terminal) (subject : Expr) (closing brace : Terminal)
      (cases : List Case) (fallback : Option (Token × Terminal)) (fallbackBody : List Stmt)
      (closingBrace : Terminal)
  | read (keyword : Token) (target : Designator) (semicolon : Terminal)
  | write (keyword : Token) (operands : Separated Expr) (semicolon : Terminal)
  | block (opening : Token) (items : List BlockItem) (closing : Terminal)

inductive Case where
  | mk (keyword : Token) (label : Expr) (colon : Terminal) (body : List Stmt)

inductive BlockItem where
  | declaration (d : Declaration)
  | statement (s : Stmt)
  | skipped (token : Token)

end

namespace Window

def readCondition (g : Grammar) (steps : Nat) (w : Window) : Condition × Window :=
  let (opening, w₁) := w.expect .openParen
  let (test, w₂) := w₁.readExpr g steps .lowest
  let (closing, w₃) := w₂.expect .closeParen
  (⟨opening, test, closing⟩, w₃)

def readAssignment (g : Grammar) (steps : Nat) (w : Window) : Assignment × Window :=
  let (target, w₁) := w.readDesignator steps
  match w₁.expect .assignment with
  | (.missing _ next, w₂) => (.broken target next, w₂)
  | (.read becomes, w₂) =>
      let (value, w₃) := w₂.readExpr g steps .lowest
      (.complete target becomes value, w₃)

/-- Reads an assignment from its `:=` on, which is ahead. -/
def readAssign (g : Grammar) (steps : Nat) (target : Designator) (w : Window) : Stmt × Window :=
  let (value, w₁) := w.advance.readExpr g steps .lowest
  if w₁.kind = .question then
    let (first, w₂) := w₁.advance.readExpr g steps .lowest
    let (colon, w₃) := w₂.expect .colon
    let (second, w₄) := w₃.readExpr g steps .lowest
    let (semicolon, w₅) := w₄.expect .semicolon
    (.choose target w.ahead value w₁.ahead first colon second semicolon, w₅)
  else
    let (semicolon, w₂) := w₁.expect .semicolon
    (.assign target w.ahead value semicolon, w₂)

/-- Reads a call from its opening parenthesis on, which is ahead. -/
def readCall (g : Grammar) (steps : Nat) (callee : Designator) (w : Window) : Stmt × Window :=
  let (arguments, w₁) :=
    w.advance.separatedUnlessClosed (fun w => w.readExpr g steps .lowest) steps
  let (closing, w₂) := w₁.expect .closeParen
  let (semicolon, w₃) := w₂.expect .semicolon
  (.call callee w.ahead arguments closing semicolon, w₃)

def readDesignatorStmt (g : Grammar) (steps : Nat) (w : Window) : Stmt × Window :=
  let (target, w₁) := w.readDesignator steps
  match target.name? with
  | none => (.broken target, w₁)
  | some _ =>
      match w₁.kind with
      | .assignment => w₁.readAssign g steps target
      | .openParen => w₁.readCall g steps target
      | _ => (.dangling target w₁.ahead, w₁)

def readRead (steps : Nat) (w : Window) : Stmt × Window :=
  let (target, w₁) := w.advance.readDesignator steps
  let (semicolon, w₂) := w₁.expect .semicolon
  (.read w.ahead target semicolon, w₂)

def readWrite (g : Grammar) (steps : Nat) (w : Window) : Stmt × Window :=
  let (operands, w₁) := w.advance.separated (fun w => w.readExpr g steps .lowest) steps
  let (semicolon, w₂) := w₁.expect .semicolon
  (.write w.ahead operands semicolon, w₂)

mutual

def readStmt (g : Grammar) : Nat → Window → Stmt × Window
  | 0, w => (.missing w.ahead, w)
  | steps + 1, w =>
      match g.stmtForm? w.kind with
      | none => (.missing w.ahead, w)
      | some form => readStmtForm g steps form w

/-- Reads a statement of the given form, which the token ahead is taken to open. -/
def readStmtForm (g : Grammar) : Nat → StmtForm → Window → Stmt × Window
  | 0, _, w => (.missing w.ahead, w)
  | steps + 1, form, w =>
      match form with
      | .designator => w.readDesignatorStmt g steps
      | .branch =>
          let (condition, w₁) := w.advance.readCondition g steps
          let (body, w₂) := readStmt g steps w₁
          if w₂.kind = .kwElse then
            let (alternative, w₃) := readStmt g steps w₂.advance
            (.branchElse w.ahead condition body w₂.ahead alternative, w₃)
          else (.branch w.ahead condition body, w₂)
      | .whileLoop =>
          let (condition, w₁) := w.advance.readCondition g steps
          let (body, w₂) := readStmt g steps w₁
          (.whileLoop w.ahead condition body, w₂)
      | .forLoop =>
          let (opening, w₁) := w.advance.expect .openParen
          let (init, w₂) := w₁.readAssignment g steps
          let (afterInit, w₃) := w₂.expect .semicolon
          let (test, w₄) := w₃.readExpr g steps .lowest
          let (afterTest, w₅) := w₄.expect .semicolon
          let (step, w₆) := w₅.readAssignment g steps
          let (closing, w₇) := w₆.expect .closeParen
          let (body, w₈) := readStmt g steps w₇
          (.forLoop w.ahead opening init afterInit test afterTest step closing body, w₈)
      | .switch =>
          let (opening, w₁) := w.advance.expect .openParen
          let (subject, w₂) := w₁.readExpr g steps .lowest
          let (closing, w₃) := w₂.expect .closeParen
          let (brace, w₄) := w₃.expect .openCurly
          let (cases, w₅) := readCases g steps w₄
          if w₅.kind = .kwDefault then
            let (colon, w₆) := w₅.advance.expect .colon
            let (fallbackBody, w₇) := readStmts g steps w₆
            let (closingBrace, w₈) := w₇.expect .closeCurly
            (.switch w.ahead opening subject closing brace cases (some (w₅.ahead, colon))
              fallbackBody closingBrace, w₈)
          else
            let (closingBrace, w₆) := w₅.expect .closeCurly
            (.switch w.ahead opening subject closing brace cases none [] closingBrace, w₆)
      | .read => w.readRead steps
      | .write => w.readWrite g steps
      | .block =>
          let (items, w₁) := readBlockItems g steps w.advance
          let (closing, w₂) := w₁.expect .closeCurly
          (.block w.ahead items closing, w₂)

/-- Reads statements for as long as one starts with the token ahead. -/
def readStmts (g : Grammar) : Nat → Window → List Stmt × Window
  | 0, w => ([], w)
  | steps + 1, w =>
      if g.startsStmt w.kind then
        let (s, w₁) := readStmt g steps w
        let (more, w₂) := readStmts g steps w₁
        (s :: more, w₂)
      else ([], w)

def readCases (g : Grammar) : Nat → Window → List Case × Window
  | 0, w => ([], w)
  | steps + 1, w =>
      if w.kind = .kwCase then
        let (label, w₁) := w.advance.readExpr g steps .lowest
        let (colon, w₂) := w₁.expect .colon
        let (body, w₃) := readStmts g steps w₂
        let (more, w₄) := readCases g steps w₃
        (.mk w.ahead label colon body :: more, w₄)
      else ([], w)

def readBlockItems (g : Grammar) : Nat → Window → List BlockItem × Window
  | 0, w => ([], w)
  | steps + 1, w =>
      if w.atListEnd then ([], w)
      else
        match w.readDeclaration? g steps with
        | some (d, w₁) =>
            let (more, w₂) := readBlockItems g steps w₁
            (.declaration d :: more, w₂)
        | none =>
            if g.startsStmt w.kind then
              let (s, w₁) := readStmt g steps w
              let (more, w₂) := readBlockItems g steps w₁
              (.statement s :: more, w₂)
            else
              let (more, w₁) := readBlockItems g steps w.advance
              (.skipped w.ahead :: more, w₁)

end

end Window
end SlotLang
