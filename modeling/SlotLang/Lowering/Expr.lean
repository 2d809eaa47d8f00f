import SlotLang.Grammar.Expr
import SlotLang.Lowering

/-!
# Lowering expressions

The code of an expression leaves its value on the stack: operands first, then the operator.  The
result is the type of the value.
-/

namespace SlotLang

open Lowering

def Index.lower (i : Index) : Lowering Unit := do
  consume i.opening
  i.number.lower
  i.closing.lower

def lowerIndices : List Index → Lowering Unit
  | [] => pure ()
  | i :: indices => do
      i.lower
      lowerIndices indices

def lowerMemberRefs : List MemberRef → Lowering Unit
  | [] => pure ()
  | m :: members => do
      consume m.dot
      m.name.lower
      lowerIndices m.indices
      lowerMemberRefs members

namespace Designator

/-- Passes the tokens of a designator and gives its composed name. -/
def lower (d : Designator) : Lowering (Option String) := do
  d.head.lower
  lowerIndices d.indices
  lowerMemberRefs d.members
  return d.name?

/-- Passes a designator and looks its name up. -/
def lowerTarget (d : Designator) : Lowering (Option Resolved) := do
  match ← d.lower with
  | some name => resolve name
  | none => pure none

end Designator

/-- The comparison that an operator stands for. -/
def Comparison.ofKind : TokenKind → Comparison
  | .less => lss
  | .greater => gtr
  | .notEquals => neq
  | .lessEquals => leq
  | .greaterEquals => geq
  | _ => equ

/-- The arithmetic operation that an operator stands for. -/
def ArithOp.ofKind : TokenKind → ArithOp
  | .dash => sub
  | .star => mul
  | .slash => div
  | _ => add

namespace Expr

def lowerNumber (token : Token) : Lowering Ty := do
  consume token
  match Text.integer? token.value with
  | some value => emit (.const value)
  | none =>
      refuse (.unreadableNumber token.value)
      emit (.const 0)
  return .int

def lowerBoolean (token : Token) : Lowering Ty := do
  consume token
  emit (.const (if token.kind = .kwTrue then 1 else 0))
  return .bool

def lowerDesignator (d : Designator) : Lowering Ty := do
  match ← d.lowerTarget with
  | none => return .undefined
  | some target =>
      match Typing.loadable target with
      | .ok ty =>
          load target
          return ty
      | .error fault =>
          refuse fault
          return target.symbol.ty

/-- The machine complements a value; one more gives its negative. -/
def lowerNegation (minus : Token) (operand : Lowering Ty) : Lowering Ty := do
  consume minus
  let ty ← operand
  check (Typing.negation ty)
  emit .neg
  emit (.const 1)
  emit (.arith .add)
  return .int

def lowerGrouping (opening : Token) (inner : Lowering Ty) (closing : Terminal) : Lowering Ty := do
  consume opening
  let ty ← inner
  closing.lower
  return ty

/-- The operator and the right operand of a comparison.  Values of different types are not compared
at all, and the type of the left one stays. -/
def lowerRelational (left : Ty) (op : Token) (right : Lowering Ty) : Lowering Ty := do
  consume op
  let rightTy ← right
  match Typing.relational left rightTy with
  | .ok ty =>
      emit (.compare (.ofKind op.kind))
      return ty
  | .error fault =>
      refuse fault
      return left

/-- The operator and the right operand of an arithmetic operation. -/
def lowerArithmetic (left : Ty) (op : Token) (right : Lowering Ty) : Lowering Ty := do
  consume op
  let rightTy ← right
  check (Typing.arithmetic left rightTy)
  emit (.arith (.ofKind op.kind))
  return .int

def lower : Expr → Lowering Ty
  | missing next => do
      refuseBefore next (.invalid "Factor")
      return .undefined
  | number token => lowerNumber token
  | boolean token => lowerBoolean token
  | designator d => lowerDesignator d
  | negation minus operand => lowerNegation minus operand.lower
  | grouping opening inner closing => lowerGrouping opening inner.lower closing
  | relational left op right => do
      let ty ← left.lower
      lowerRelational ty op right.lower
  | arithmetic left op right => do
      let ty ← left.lower
      lowerArithmetic ty op right.lower

end Expr

/-- Applies an action to every item, with the separators passed in between. -/
def Separated.lower {α β : Type} (items : Separated α) (f : α → Lowering β) :
    Lowering (List β) := do
  let first ← f items.first
  let others ← lowerOthers items.others
  return first :: others
where
  lowerOthers : List (Token × α) → Lowering (List β)
    | [] => pure []
    | (separator, a) :: more => do
        consume separator
        let b ← f a
        let bs ← lowerOthers more
        return b :: bs

/-- The same for a list that may be absent. -/
def Separated.lower? {α β : Type} (items : Option (Separated α)) (f : α → Lowering β) :
    Lowering (List β) :=
  match items with
  | some items => items.lower f
  | none => pure []

end SlotLang
