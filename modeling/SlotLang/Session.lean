import SlotLang.Code.Buffer
import SlotLang.Code.Header
import SlotLang.Lowering.Program

/-!
# Sessions

A session reads phrases from a window and lowers each of them at once: it adds their code to what it
has, lets the reporter hear their events, and goes on in the environment that they leave.  A whole
program is one phrase, but phrases of any kind can be taken one by one, in any order.
-/

namespace SlotLang

structure Session where
  grammar : Grammar
  window : Window
  env : Env
  code : Array Instruction
  /-- The labels that a caller has opened and not yet landed, the innermost first. -/
  pending : List Label
  reporter : Reporter

/-- What a compilation gives. -/
structure Compilation where
  listing : List Instruction
  diagnostics : List Diagnostic
  errorCount : Nat
  deriving DecidableEq, Repr

namespace Compilation

def isSuccess (c : Compilation) : Bool := c.errorCount = 0

def summary (c : Compilation) : String :=
  if c.isSuccess then "compilation succeeded" else toString c.errorCount ++ " error(s) detected"

end Compilation

namespace Session

/-- A session over a token list.  No scope is open, and the first token counts as passed. -/
def start (grammar : Grammar) (window : Window) (minDistance : Nat) : Session where
  grammar := grammar
  window := window
  env := .start window.ahead
  code := #[]
  pending := []
  reporter := .new minDistance

/-! ## Phrases -/

/-- Takes over what lowering has produced. -/
def perform {α : Type} (s : Session) (x : Lowering α) : α × Session :=
  let o := x s.env
  (o.value,
    { s with env := o.env, code := s.code ++ o.code, reporter := s.reporter.hearAll o.events })

/-- Reads a phrase and lowers it. -/
def take {τ α : Type} (s : Session) (read : Window → τ × Window) (lower : τ → Lowering α) :
    α × Session :=
  let (tree, window) := read s.window
  { s with window := window }.perform (lower tree)

def steps (s : Session) : Nat := s.window.budget

def expr (s : Session) (power : Power) : Ty × Session :=
  s.take (fun w => w.readExpr s.grammar s.steps power) Expr.lower

def factor (s : Session) (form : FactorForm) : Ty × Session :=
  s.take (fun w => w.readFactor s.grammar s.steps form) Expr.lower

/-- Takes an operator and its right operand, for a left operand of the given type. -/
def operation (s : Session) (form : OperatorForm) (left : Ty) (power : Power) : Ty × Session :=
  let op := s.window.ahead
  s.take (fun w => w.advance.readExpr s.grammar s.steps power) fun right =>
    match form with
    | .relational => Expr.lowerRelational left op right.lower
    | .arithmetic => Expr.lowerArithmetic left op right.lower

def designator (s : Session) : Option String × Session :=
  s.take (fun w => w.readDesignator s.steps) Designator.lower

def stmt (s : Session) : Session :=
  (s.take (fun w => w.readStmt s.grammar s.steps) Stmt.lower).2

def stmtForm (s : Session) (form : StmtForm) : Session :=
  (s.take (fun w => w.readStmtForm s.grammar s.steps form) Stmt.lower).2

def const (s : Session) : Session :=
  (s.take (fun w => w.readConst s.grammar s.steps) Declaration.lower).2

def vars (s : Session) : Session :=
  (s.take (fun w => w.readVars s.steps) Declaration.lower).2

def struct (s : Session) : Session :=
  (s.take (fun w => w.readStruct s.steps) Declaration.lower).2

def procedure (s : Session) : Session :=
  (s.take (fun w => w.readProcedure s.grammar s.steps) Procedure.lower).2

def external (s : Session) : Session :=
  (s.take (fun w => w.readExternal s.steps) External.lower).2

def program (s : Session) : Session :=
  (s.take (fun w => w.readProgram s.grammar s.steps) Program.lower).2

/-! ## Single tokens -/

def advance (s : Session) : Token × Session :=
  s.take (fun w => (w.ahead, w.advance)) fun token => do
    Lowering.consume token
    return token

def expect (s : Session) (kind : TokenKind) : Terminal × Session :=
  s.take (fun w => w.expect kind) fun terminal => do
    terminal.lower
    return terminal

/-- Takes a token of the given kind, if one is ahead. -/
def accept (s : Session) (kind : TokenKind) : Bool × Session :=
  if s.window.kind = kind then (true, s.advance.2) else (false, s)

/-- Places a fault in front of the token ahead. -/
def refuseAhead (s : Session) (fault : Fault) : Session :=
  (s.perform (Lowering.refuseBefore s.window.ahead fault)).2

/-- Refuses the token ahead as the start of a production, and passes it. -/
def skip (s : Session) (production : String) : Session :=
  (s.take (fun w => (w.ahead, w.advance)) (Lowering.skip production)).2

def startsStmt (s : Session) : Bool := s.grammar.startsStmt s.window.kind

/-! ## The code so far -/

def buffer (s : Session) : CodeBuffer := ⟨s.code, s.pending, s.env.nextLabel⟩

def setBuffer (s : Session) (b : CodeBuffer) : Session :=
  { s with
    code := b.instructions
    pending := b.pending
    env := { s.env with nextLabel := b.nextLabel } }

def scopes (s : Session) : ScopeStack := s.env.scopes

def setScopes (s : Session) (scopes : ScopeStack) : Session :=
  { s with env := { s.env with scopes := scopes } }

/-- Ends a session: the header goes before the code. -/
def finish (s : Session) : Compilation where
  listing := header (s.scopes.global?.getD .empty) s.scopes.externals ++ s.code.toList
  diagnostics := s.reporter.diagnostics
  errorCount := s.reporter.count

end Session
end SlotLang
