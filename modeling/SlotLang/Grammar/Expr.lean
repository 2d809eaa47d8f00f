import SlotLang.Grammar.Designator
import SlotLang.Grammar.Forms

/-!
# Expressions

Factors joined by operators.  Reading an expression with a power takes a factor and then operators
for as long as they bind tighter than that power.  Each form of factor can also be read by itself,
whatever token is ahead; the token ahead is then taken for the one that opens the form.
-/

namespace SlotLang

inductive Expr where
  /-- No factor starts with `next`. -/
  | missing (next : Token)
  | number (token : Token)
  | boolean (token : Token)
  | designator (d : Designator)
  | negation (minus : Token) (operand : Expr)
  | grouping (opening : Token) (inner : Expr) (closing : Terminal)
  | relational (left : Expr) (op : Token) (right : Expr)
  | arithmetic (left : Expr) (op : Token) (right : Expr)
  deriving DecidableEq, Repr

def Expr.operation (form : OperatorForm) (left : Expr) (op : Token) (right : Expr) : Expr :=
  match form with
  | .relational => .relational left op right
  | .arithmetic => .arithmetic left op right

namespace Window

mutual

def readExpr (g : Grammar) : Nat → Power → Window → Expr × Window
  | 0, _, w => (.missing w.ahead, w)
  | steps + 1, power, w =>
      match g.factorForm? w.kind with
      | none => (.missing w.ahead, w)
      | some form =>
          let (left, w₁) := readFactor g steps form w
          readOperators g steps power left w₁

def readFactor (g : Grammar) : Nat → FactorForm → Window → Expr × Window
  | _, .number, w => (.number w.ahead, w.advance)
  | _, .boolean, w => (.boolean w.ahead, w.advance)
  | steps, .designator, w =>
      let (d, w₁) := w.readDesignator steps
      (.designator d, w₁)
  | 0, .negation, w => (.negation w.ahead (.missing w.advance.ahead), w.advance)
  | steps + 1, .negation, w =>
      let (operand, w₁) := readExpr g steps .unary w.advance
      (.negation w.ahead operand, w₁)
  | 0, .grouping, w =>
      let (closing, w₁) := w.advance.expect .closeParen
      (.grouping w.ahead (.missing w.advance.ahead) closing, w₁)
  | steps + 1, .grouping, w =>
      let (inner, w₁) := readExpr g steps .lowest w.advance
      let (closing, w₂) := w₁.expect .closeParen
      (.grouping w.ahead inner closing, w₂)

def readOperators (g : Grammar) : Nat → Power → Expr → Window → Expr × Window
  | 0, _, left, w => (left, w)
  | steps + 1, power, left, w =>
      match g.operator? w.kind with
      | none => (left, w)
      | some (opPower, form) =>
          if power.rank < opPower.rank then
            let (right, w₁) := readExpr g steps opPower w.advance
            readOperators g steps power (.operation form left w.ahead right) w₁
          else (left, w)

end

end Window
end SlotLang
