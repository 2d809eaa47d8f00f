import SlotLang.Symbol

/-!
# Code for the stack machine

Instructions, the directives that stand before them, and their text.  A jump names a label; labels
are either drawn from a supply or are the composed names of procedures.  The text of a listing has
one instruction on each line.
-/

namespace SlotLang

inductive Label where
  /-- The label with the given number of a supply. -/
  | fresh (number : Nat)
  | named (text : String)
  deriving DecidableEq, Repr

def Label.text : Label → String
  | fresh number => "L$" ++ toString number
  | named text => text

/-- A place in global storage: a slot, or a name that is resolved when programs are linked. -/
inductive Address where
  | slot (offset : Nat)
  | name (text : String)
  deriving DecidableEq, Repr

def Address.text : Address → String
  | slot offset => toString offset
  | name text => text

inductive ArithOp where
  | add
  | sub
  | mul
  | div
  deriving DecidableEq, Repr

def ArithOp.text : ArithOp → String
  | add => "Add"
  | sub => "Sub"
  | mul => "Mul"
  | div => "Div"

inductive Comparison where
  | equ
  | lss
  | gtr
  | neq
  | leq
  | geq
  deriving DecidableEq, Repr

def Comparison.text : Comparison → String
  | equ => "Equ"
  | lss => "Lss"
  | gtr => "Gtr"
  | neq => "Neq"
  | leq => "Leq"
  | geq => "Geq"

/-- What a listing declares ahead of its code. -/
inductive Directive where
  | names (count : Nat)
  | var (ty : Ty) (name : String)
  | proc (name : String)
  | externalVar (ty : Ty) (name : String)
  | externalProc (name : String)
  | externalConst (ty : Ty) (name : String)
  deriving DecidableEq, Repr

def Directive.text : Directive → String
  | names count => ".names " ++ toString count
  | var ty name => ".var " ++ toString ty.tag ++ " " ++ name
  | proc name => ".proc " ++ name
  | externalVar ty name => ".external var " ++ toString ty.tag ++ " " ++ name
  | externalProc name => ".external proc " ++ name
  | externalConst ty name => ".external const " ++ toString ty.tag ++ " " ++ name

inductive Op where
  | const (value : Int)
  | arith (op : ArithOp)
  | neg
  | compare (op : Comparison)
  | load (level offset : Nat)
  | loadGlobal (address : Address)
  | store (level offset : Nat)
  | storeGlobal (address : Address)
  | enter (size : Nat)
  | leave
  | ret
  | call (level : Nat) (label : Label)
  | jump (label : Label)
  | jumpUnless (label : Label)
  | read
  | write
  | nop
  | directive (d : Directive)
  deriving DecidableEq, Repr

def Op.text : Op → String
  | const value => "Const " ++ toString value
  | arith op => op.text
  | neg => "Neg"
  | compare op => op.text
  | load level offset => "Load " ++ toString level ++ " " ++ toString offset
  | loadGlobal address => "LoadG " ++ address.text
  | store level offset => "Sto " ++ toString level ++ " " ++ toString offset
  | storeGlobal address => "StoG " ++ address.text
  | enter size => "Enter " ++ toString size
  | leave => "Leave"
  | ret => "Ret"
  | call level label => "Call " ++ toString level ++ " " ++ label.text
  | jump label => "Jmp " ++ label.text
  | jumpUnless label => "FJmp " ++ label.text
  | read => "Read"
  | write => "Write"
  | nop => "Nop"
  | directive d => d.text

structure Instruction where
  label : Option Label
  op : Op
  deriving DecidableEq, Repr

namespace Instruction

def plain (op : Op) : Instruction := ⟨none, op⟩

def labelled (label : Label) (op : Op) : Instruction := ⟨some label, op⟩

/-- The instruction that a jump to a label arrives at. -/
def landing (label : Label) : Instruction := labelled label .nop

def text (i : Instruction) : String :=
  match i.label with
  | some label => label.text ++ ": " ++ i.op.text
  | none => i.op.text

end Instruction

/-- The text of a listing. -/
def renderListing (code : List Instruction) : String :=
  String.join (code.map fun i => i.text ++ "\n")

end SlotLang
