import SlotLang.Proofs.Action

/-!
# Elaboration

From the tree of a program to its resolved form.  Elaboration walks over the tree in the order of
lowering and carries only what names mean: the scopes, the structs and the signatures.  Where the
tree lacks something it puts in anything at all, since such a tree is never lowered without a fault.
-/

namespace SlotLang

open Aggregate

/-- What names mean at a point of a program. -/
structure Static where
  scopes : ScopeStack
  structs : StructTable
  signatures : Signatures

def Env.static (env : Env) : Static := ⟨env.scopes, env.structs, env.signatures⟩

@[simp] theorem Env.static_scopes (env : Env) : env.static.scopes = env.scopes := rfl

namespace Separated

def toList {α : Type} (items : Separated α) : List α :=
  items.first :: items.others.map (·.2)

def toList? {α : Type} (items : Option (Separated α)) : List α :=
  match items with
  | some items => items.toList
  | none => []

end Separated

/-- Phrases one after the other, each with the names that those before it have declared. -/
def elaborateAll {α : Type} (f : α → Static → Action × Static) :
    List α → Static → Action × Static
  | [], st => (.skip, st)
  | a :: more, st =>
      let (first, st₁) := f a st
      let (second, st₂) := elaborateAll f more st₁
      (.seq first second, st₂)

/-! ## Expressions -/

def Designator.use (d : Designator) (scopes : ScopeStack) : Use :=
  ⟨d.name?.getD "", scopes⟩

@[simp] theorem Designator.use_scopes (d : Designator) (scopes : ScopeStack) :
    (d.use scopes).scopes = scopes := rfl

def Expr.term (scopes : ScopeStack) : Expr → Term
  | missing _ => .number 0
  | number token => .number ((Text.integer? token.value).getD 0)
  | boolean token => .boolean (token.kind = .kwTrue)
  | designator d => .use (d.use scopes)
  | negation _ operand => .negation (operand.term scopes)
  | grouping _ inner _ => inner.term scopes
  | relational left op right =>
      .comparison (.ofKind op.kind) (left.term scopes) (right.term scopes)
  | arithmetic left op right =>
      .arithmetic (.ofKind op.kind) (left.term scopes) (right.term scopes)

/-! ## Declarations -/

def TypeSpec.declared : TypeSpec → DeclaredTy
  | scalar s => .scalar s.ty
  | struct _ name => .struct name.valueD

def Index.bound (i : Index) : Nat := ((i.number.value?).bind Text.word?).getD 0

/-- The scalars that variables of the given names and type consist of. -/
def DeclaredTy.members (structs : StructTable) (ty : DeclaredTy) (names : List String) :
    List Member :=
  match ty with
  | .scalar ty => names.map fun name => ⟨name, ty, .var⟩
  | .struct structName =>
      match structs.get? structName with
      | some d => names.flatMap d.instanceMembers
      | none => []

/-- A constant is declared before its value is computed. -/
def ConstEntry.elaborate (entry : ConstEntry) (st : Static) : Action × Static :=
  match entry.name.value?, entry.value with
  | some name, some (_, value) =>
      let scopes := (st.scopes.declareStorage name .const entry.ty.ty).2
      (.store .const ⟨name, scopes⟩ (value.term scopes), { st with scopes := scopes })
  | _, _ => (.skip, st)

def Declarator.elaborate (ty : DeclaredTy) (d : Declarator) (st : Static) : Action × Static :=
  let names := allElements d.name.valueD (d.bounds.map Index.bound)
  (.skip, { st with scopes := st.scopes.declareAll (ty.members st.structs names) })

def StructItem.members (structs : StructTable) : StructItem → List Member
  | skipped _ => []
  | member ty name bounds _ =>
      ty.declared.members structs (allElements name.valueD (bounds.map Index.bound))

def Declaration.elaborate : Declaration → Static → Action × Static
  | const _ entries _, st => elaborateAll ConstEntry.elaborate entries.toList st
  | vars ty declarators _, st =>
      elaborateAll (Declarator.elaborate ty.declared) declarators.toList st
  | structDef _ name _ items _ _, st =>
      let d : StructDef := ⟨name.valueD, items.flatMap (StructItem.members st.structs)⟩
      (.skip, { st with structs := st.structs.define d })

/-! ## Statements -/

namespace Assignment

def use (scopes : ScopeStack) : Assignment → Use
  | complete target _ _ | broken target _ => target.use scopes

def term (scopes : ScopeStack) : Assignment → Term
  | complete _ _ value => value.term scopes
  | broken _ _ => .number 0

end Assignment

mutual

def Stmt.elaborate : Stmt → Static → Action × Static
  | .missing _, st | .broken _, st | .dangling _ _, st => (.skip, st)
  | .assign target _ value _, st =>
      (.store .var (target.use st.scopes) (value.term st.scopes), st)
  | .choose target _ guard _ first _ second _, st =>
      (.choose (target.use st.scopes) (guard.term st.scopes) (first.term st.scopes)
        (second.term st.scopes), st)
  | .call callee _ arguments _ _, st =>
      (.call (callee.use st.scopes)
        ((Separated.toList? arguments).map (Expr.term st.scopes)) st.signatures, st)
  | .branch _ condition body, st =>
      let (inner, st₁) := body.elaborate st
      (.branch (condition.test.term st.scopes) inner .skip, st₁)
  | .branchElse _ condition body _ alternative, st =>
      let (inner, st₁) := body.elaborate st
      let (other, st₂) := alternative.elaborate st₁
      (.branch (condition.test.term st.scopes) inner other, st₂)
  | .whileLoop _ condition body, st =>
      let (inner, st₁) := body.elaborate st
      (.loop (condition.test.term st.scopes) inner, st₁)
  | .forLoop _ _ init _ test _ step _ body, st =>
      let (inner, st₁) := body.elaborate st
      (.seq (.store .var (init.use st.scopes) (init.term st.scopes))
        (.rounds (test.term st.scopes) (step.use st.scopes) (step.term st.scopes) inner), st₁)
  | .switch _ _ subject _ _ cases _ fallbackBody _, st =>
      let (chain, st₁) := elaborateCases cases st
      let (fallback, st₂) := elaborateStmts fallbackBody st₁
      (.switch (subject.term st.scopes) chain fallback, st₂)
  | .read _ target _, st => (.read (target.use st.scopes), st)
  | .write _ operands _, st =>
      elaborateAll (fun operand st => (.write (operand.term st.scopes), st)) operands.toList st
  | .block _ items _, st => elaborateBlock items st

def elaborateStmts : List Stmt → Static → Action × Static
  | [], st => (.skip, st)
  | s :: more, st =>
      let (first, st₁) := s.elaborate st
      let (second, st₂) := elaborateStmts more st₁
      (.seq first second, st₂)

def elaborateCases : List Case → Static → Cases × Static
  | [], st => (.none, st)
  | .mk _ label _ body :: more, st =>
      let (inner, st₁) := elaborateStmts body st
      let (rest, st₂) := elaborateCases more st₁
      (.case (label.term st.scopes) inner rest, st₂)

def elaborateBlock : List BlockItem → Static → Action × Static
  | [], st => (.skip, st)
  | item :: more, st =>
      let (first, st₁) := item.elaborate st
      let (second, st₂) := elaborateBlock more st₁
      (.seq first second, st₂)

def BlockItem.elaborate : BlockItem → Static → Action × Static
  | .declaration d, st => d.elaborate st
  | .statement s, st => s.elaborate st
  | .skipped _, st => (.skip, st)

end

/-! ## Procedures and programs -/

def Param.declare (scopes : ScopeStack) (p : Param) : ScopeStack :=
  (scopes.declareLocal p.name.valueD .var p.ty.ty).2

/-- With its parameters the signature of a procedure is known. -/
def Static.declareParams (st : Static) (label name : String) (params : List Param) : Static :=
  { st with
    scopes := params.foldl Param.declare st.scopes
    signatures := st.signatures.register label ⟨name, params.map (·.ty.ty), .undefined⟩ }

/-- What names mean at the start of the body of a procedure. -/
def Static.enter (st : Static) (name : String) (params : List Param) : Static :=
  let declared := (st.scopes.declareProcedure name).2
  let inner : Static := { st with scopes := (declared.enterProcedure name).2 }
  inner.declareParams (declared.labelFor name) name params

/-- What names mean behind a procedure, from what they mean at the end of its body. -/
def Static.leave (st : Static) : Static :=
  { st with scopes := st.scopes.exitProcedure.2 }

mutual

def Procedure.elaborate : Procedure → Static → Routine × Static
  | .mk _ name _ params _ _ body _, st =>
      let (inner, final) :=
        elaborateBody body (st.enter name.valueD (Separated.toList? params))
      (⟨(st.scopes.declareProcedure name.valueD).2.labelFor name.valueD,
        (Separated.toList? params).map fun p => (p.name.valueD, p.ty.ty),
        final.scopes.current?.getD .empty, inner⟩, final.leave)

def elaborateBody : List BodyItem → Static → Body × Static
  | [], st => (.done, st)
  | .declaration d :: more, st =>
      let (a, st₁) := d.elaborate st
      let (rest, st₂) := elaborateBody more st₁
      (.action a rest, st₂)
  | .statement s :: more, st =>
      let (a, st₁) := s.elaborate st
      let (rest, st₂) := elaborateBody more st₁
      (.action a rest, st₂)
  | .nested p :: more, st =>
      let (r, st₁) := p.elaborate st
      let (rest, st₂) := elaborateBody more st₁
      (.nested r.label r.params r.frame r.body rest, st₂)
  | .skipped _ :: more, st => elaborateBody more st

end

def Static.declareExternal (st : Static) (name : Terminal) (kind : SymbolKind) (ty : Ty) :
    Static :=
  { st with scopes := (st.scopes.declareExternal name.valueD kind ty).2 }

def External.declare : External → Static → Static
  | vars _ ty names _, st =>
      names.toList.foldl (fun st name => st.declareExternal name .var ty.ty) st
  | const _ _ ty name _, st => st.declareExternal name .const ty.ty
  | procedure _ _ name params _, st =>
      let declared := st.declareExternal name .procedure .undefined
      match params with
      | none => declared
      | some params =>
          let types := (Separated.toList? params.types).map ScalarSpec.ty
          { declared with
            signatures := st.signatures.register name.valueD ⟨name.valueD, types, .undefined⟩ }
  | missing _ _, st => st

def ProgramItem.elaborate : ProgramItem → Static → List Part × Static
  | declaration d, st =>
      let (a, st₁) := d.elaborate st
      ([.action a], st₁)
  | procedure p, st =>
      let (r, st₁) := p.elaborate st
      ([.routine r], st₁)
  | external e, st => ([], e.declare st)
  | skipped _, st => ([], st)

def elaborateItems : List ProgramItem → Static → List Part × Static
  | [], st => ([], st)
  | item :: more, st =>
      let (first, st₁) := item.elaborate st
      let (second, st₂) := elaborateItems more st₁
      (first ++ second, st₂)

/-- The parts of a program, and what names mean at its end. -/
def Program.elaborate (p : Program) : List Part × Static :=
  elaborateItems p.items ⟨ScopeStack.empty.openScope, .empty, .empty⟩

end SlotLang
