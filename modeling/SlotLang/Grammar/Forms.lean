import SlotLang.Token

/-!
# Forms

Which construct a token opens.  A factor, an operator and a statement are each told by the kind of
one token, so that reading never goes back.  The bare grammar opens none of them: it is left with
declarations.

Operators bind by power.  An operator continues an expression only if its power is above the power
that the expression is read with, and its right operand is read with its own power; hence operators
of one power group to the left.
-/

namespace SlotLang

inductive Power where
  | lowest
  | relational
  | additive
  | multiplicative
  | unary
  | primary
  deriving DecidableEq, Repr

namespace Power

def all : List Power := [lowest, relational, additive, multiplicative, unary, primary]

def name : Power → String
  | lowest => "Default"
  | relational => "Relational"
  | additive => "Additive"
  | multiplicative => "Multiplicative"
  | unary => "Unary"
  | primary => "Primary"

def rank : Power → Nat
  | lowest => 0
  | relational => 1
  | additive => 2
  | multiplicative => 3
  | unary => 4
  | primary => 5

end Power

inductive FactorForm where
  | number
  | boolean
  | designator
  | negation
  | grouping
  deriving DecidableEq, Repr

inductive OperatorForm where
  | relational
  | arithmetic
  deriving DecidableEq, Repr

inductive StmtForm where
  | designator
  | branch
  | whileLoop
  | forLoop
  | switch
  | read
  | write
  | block
  deriving DecidableEq, Repr

inductive Grammar where
  | full
  | bare
  deriving DecidableEq, Repr

namespace Grammar

def factorForm? : Grammar → TokenKind → Option FactorForm
  | bare, _ => none
  | full, .number => some .number
  | full, .identifier => some .designator
  | full, .kwTrue => some .boolean
  | full, .kwFalse => some .boolean
  | full, .dash => some .negation
  | full, .openParen => some .grouping
  | full, _ => none

/-- The power and the form of an operator. -/
def operator? : Grammar → TokenKind → Option (Power × OperatorForm)
  | bare, _ => none
  | full, .equals => some (.relational, .relational)
  | full, .notEquals => some (.relational, .relational)
  | full, .less => some (.relational, .relational)
  | full, .lessEquals => some (.relational, .relational)
  | full, .greater => some (.relational, .relational)
  | full, .greaterEquals => some (.relational, .relational)
  | full, .plus => some (.additive, .arithmetic)
  | full, .dash => some (.additive, .arithmetic)
  | full, .star => some (.multiplicative, .arithmetic)
  | full, .slash => some (.multiplicative, .arithmetic)
  | full, _ => none

def stmtForm? : Grammar → TokenKind → Option StmtForm
  | bare, _ => none
  | full, .identifier => some .designator
  | full, .kwIf => some .branch
  | full, .kwWhile => some .whileLoop
  | full, .kwFor => some .forLoop
  | full, .kwSwitch => some .switch
  | full, .kwRead => some .read
  | full, .kwWrite => some .write
  | full, .openCurly => some .block
  | full, _ => none

def startsStmt (g : Grammar) (kind : TokenKind) : Bool := (g.stmtForm? kind).isSome

end Grammar
end SlotLang
