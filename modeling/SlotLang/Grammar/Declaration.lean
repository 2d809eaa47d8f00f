import SlotLang.Grammar.Expr

/-!
# Declarations of storage and structs

Constants, variables and structs.  They occur in programs, in procedures and in blocks alike.
-/

namespace SlotLang

/-- One of the two scalar types, or the token that stood in its place. -/
inductive ScalarSpec where
  | read (token : Token)
  | missing (next : Token)
  deriving DecidableEq, Repr

inductive TypeSpec where
  | scalar (s : ScalarSpec)
  | struct (keyword : Token) (name : Terminal)
  deriving DecidableEq, Repr

/-- A constant and its value; without a name there is no value either. -/
structure ConstEntry where
  ty : ScalarSpec
  name : Terminal
  value : Option (Terminal × Expr)
  deriving DecidableEq, Repr

structure Declarator where
  name : Terminal
  bounds : List Index
  deriving DecidableEq, Repr

inductive StructItem where
  | skipped (token : Token)
  | member (ty : TypeSpec) (name : Terminal) (bounds : List Index) (semicolon : Terminal)
  deriving DecidableEq, Repr

inductive Declaration where
  | const (keyword : Token) (entries : Separated ConstEntry) (semicolon : Terminal)
  | vars (ty : TypeSpec) (declarators : Separated Declarator) (semicolon : Terminal)
  | structDef (keyword : Token) (name opening : Terminal) (items : List StructItem)
      (closing semicolon : Terminal)
  deriving DecidableEq, Repr

namespace Window

/-- A list of items ends in front of its closing brace, or at the end of the text. -/
def atListEnd (w : Window) : Bool := w.kind = .closeCurly || w.kind = .eof

def readScalarSpec (w : Window) : ScalarSpec × Window :=
  if w.kind = .kwInt ∨ w.kind = .kwBool then (.read w.ahead, w.advance)
  else (.missing w.ahead, w)

def readTypeSpec (w : Window) : TypeSpec × Window :=
  if w.kind = .kwStruct then
    let (name, w₁) := w.advance.expect .identifier
    (.struct w.ahead name, w₁)
  else
    let (s, w₁) := w.readScalarSpec
    (.scalar s, w₁)

/-! ## Constants -/

def readConstEntry (g : Grammar) (steps : Nat) (w : Window) : ConstEntry × Window :=
  let (ty, w₁) := w.readScalarSpec
  match w₁.expect .identifier with
  | (.missing kind next, w₂) => (⟨ty, .missing kind next, none⟩, w₂)
  | (.read name, w₂) =>
      let (becomes, w₃) := w₂.expect .assignment
      let (value, w₄) := w₃.readExpr g steps .lowest
      (⟨ty, .read name, some (becomes, value)⟩, w₄)

def readConst (g : Grammar) (steps : Nat) (w : Window) : Declaration × Window :=
  let (entries, w₁) := w.advance.separated (readConstEntry g steps) steps
  let (semicolon, w₂) := w₁.expect .semicolon
  (.const w.ahead entries semicolon, w₂)

/-! ## Variables -/

def readDeclarator (steps : Nat) (w : Window) : Declarator × Window :=
  match w.expect .identifier with
  | (.missing kind next, w₁) => (⟨.missing kind next, []⟩, w₁)
  | (.read name, w₁) =>
      let (bounds, w₂) := w₁.readIndices steps
      (⟨.read name, bounds⟩, w₂)

def readDeclarators (steps : Nat) (ty : TypeSpec) (w : Window) : Declaration × Window :=
  let (declarators, w₁) := w.separated (readDeclarator steps) steps
  let (semicolon, w₂) := w₁.expect .semicolon
  (.vars ty declarators semicolon, w₂)

def readVars (steps : Nat) (w : Window) : Declaration × Window :=
  let (ty, w₁) := w.readTypeSpec
  w₁.readDeclarators steps ty

/-! ## Structs -/

def readStructItems : Nat → Window → List StructItem × Window
  | 0, w => ([], w)
  | steps + 1, w =>
      if w.atListEnd then ([], w)
      else if w.kind = .kwInt ∨ w.kind = .kwBool ∨ w.kind = .kwStruct then
        let (ty, w₁) := w.readTypeSpec
        let (name, w₂) := w₁.expect .identifier
        let (bounds, w₃) := w₂.readIndices steps
        let (semicolon, w₄) := w₃.expect .semicolon
        let (more, w₅) := readStructItems steps w₄
        (.member ty name bounds semicolon :: more, w₅)
      else
        let (more, w₁) := readStructItems steps w.advance
        (.skipped w.ahead :: more, w₁)

/-- A struct is defined if a brace follows its name; otherwise the name serves as a type. -/
def readStruct (steps : Nat) (w : Window) : Declaration × Window :=
  let (name, w₁) := w.advance.expect .identifier
  if w₁.kind = .openCurly then
    let (opening, w₂) := w₁.expect .openCurly
    let (items, w₃) := w₂.readStructItems steps
    let (closing, w₄) := w₃.expect .closeCurly
    let (semicolon, w₅) := w₄.expect .semicolon
    (.structDef w.ahead name opening items closing semicolon, w₅)
  else
    w₁.readDeclarators steps (.struct w.ahead name)

/-- Reads the declaration that the token ahead opens, if it opens one. -/
def readDeclaration? (g : Grammar) (steps : Nat) (w : Window) : Option (Declaration × Window) :=
  match w.kind with
  | .kwConst => some (w.readConst g steps)
  | .kwInt | .kwBool => some (w.readVars steps)
  | .kwStruct => some (w.readStruct steps)
  | _ => none

end Window
end SlotLang
