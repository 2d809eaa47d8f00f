import SlotLang.Position
import SlotLang.Text.Quoted

/-!
# Faults

A fault is the reason why a text is refused.  Its class tells which stage noticed it: a fatal fault
stops the scanner, a syntax fault says that the grammar wanted something else, and a semantic fault
says that a well-formed phrase has no meaning.  The wording of every message is in one function.
-/

namespace SlotLang

inductive FaultClass where
  | syntaxFault
  | semanticFault
  | fatalFault
  deriving DecidableEq, Repr

def FaultClass.name : FaultClass → String
  | .syntaxFault => "Syntax"
  | .semanticFault => "Semantic"
  | .fatalFault => "Fatal"

inductive Fault where
  | unrecognised (text : String)
  | expected (item : String)
  | invalid (production : String)
  | unreadableNumber (text : String)
  | undefinedVariable (name : String)
  | incompatibleTypes
  | integerExpected
  | booleanExpected
  | booleanGuardExpected
  | assignToNonVariable
  | variableExpected
  | notAProcedure
  | readKindMismatch (name kind : String)
  | readTypeMismatch (name ty : String)
  | structAlreadyDefined (name : String)
  | structNotDefined (name : String)
  | arrayAlreadyDeclared (name : String)
  | arrayTooLarge (name : String)
  | argumentCountMismatch (name : String) (wanted received : Nat)
  | argumentTypeMismatch (name : String) (index : Nat) (wanted received : String)
  | caseTypeMismatch
  deriving DecidableEq, Repr

namespace Fault

def name : Fault → String
  | unrecognised _ => "UnrecognisedToken"
  | expected _ => "Expected"
  | invalid _ => "Invalid"
  | unreadableNumber _ => "NumberParseError"
  | undefinedVariable _ => "UndefinedVariable"
  | incompatibleTypes => "IncompatibleTypes"
  | integerExpected => "IntegerExpected"
  | booleanExpected => "BooleanExpected"
  | booleanGuardExpected => "ConditionalBooleanExpected"
  | assignToNonVariable => "AssignToNonVariable"
  | variableExpected => "VariableExpected"
  | notAProcedure => "NotAProcedure"
  | readKindMismatch _ _ => "ReadKindMismatch"
  | readTypeMismatch _ _ => "ReadTypeMismatch"
  | structAlreadyDefined _ => "StructAlreadyDefined"
  | structNotDefined _ => "StructNotDefined"
  | arrayAlreadyDeclared _ => "ArrayAlreadyDeclared"
  | arrayTooLarge _ => "ArrayTooLarge"
  | argumentCountMismatch _ _ _ => "ArgumentCountMismatch"
  | argumentTypeMismatch _ _ _ _ => "ArgumentTypeMismatch"
  | caseTypeMismatch => "CaseTypeMismatch"

def message : Fault → String
  | unrecognised text => "unrecognised character " ++ Text.quoted text
  | expected item => item ++ " expected"
  | invalid production => "invalid " ++ production
  | unreadableNumber text => "invalid number " ++ text
  | undefinedVariable name => "reference to undefined variable " ++ name
  | incompatibleTypes => "incompatible types"
  | integerExpected => "integer type expected"
  | booleanExpected => "boolean type expected"
  | booleanGuardExpected => "boolean type expected for conditional assignment"
  | assignToNonVariable => "cannot assign to non-variable"
  | variableExpected => "variable expected"
  | notAProcedure => "object is not a procedure"
  | readKindMismatch name kind => "variable type expected but " ++ name ++ " has kind " ++ kind
  | readTypeMismatch name ty => "integer type expected but " ++ name ++ " has type " ++ ty
  | structAlreadyDefined name => "struct '" ++ name ++ "' is already defined"
  | structNotDefined name => "struct '" ++ name ++ "' has not been defined"
  | arrayAlreadyDeclared name => "array '" ++ name ++ "' is already declared"
  | arrayTooLarge name => "array '" ++ name ++ "' has too many elements"
  | argumentCountMismatch name wanted received =>
      "procedure " ++ name ++ " expects " ++ toString wanted ++ " argument(s), received " ++
        toString received
  | argumentTypeMismatch name index wanted received =>
      "argument " ++ toString index ++ " of " ++ name ++ ": expected " ++ wanted ++ ", received " ++
        received
  | caseTypeMismatch => "case label type does not match switch subject"

def category : Fault → FaultClass
  | unrecognised _ => .fatalFault
  | expected _ | invalid _ => .syntaxFault
  | _ => .semanticFault

end Fault

/-- The line that a message takes in a report. -/
def messageLine (p : Position) (message : String) : String :=
  "-- line " ++ toString p.line ++ " col " ++ toString p.col ++ ": " ++ message

/-- A fault together with the place where it was noticed. -/
structure PlacedFault where
  fault : Fault
  position : Position
  deriving DecidableEq, Repr

def PlacedFault.text (e : PlacedFault) : String :=
  messageLine e.position e.fault.message

end SlotLang
