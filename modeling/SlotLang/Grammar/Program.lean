import SlotLang.Grammar.Stmt

/-!
# Procedures and programs

A program is a list of declarations in braces.  A procedure is declared in a program or in another
procedure, and its body mixes declarations and statements.  Names that are defined elsewhere are
declared as external.
-/

namespace SlotLang

structure Param where
  ty : ScalarSpec
  name : Terminal
  deriving DecidableEq, Repr

mutual

inductive Procedure where
  | mk (keyword : Token) (name opening : Terminal) (params : Option (Separated Param))
      (closing brace : Terminal) (body : List BodyItem) (closingBrace : Terminal)

inductive BodyItem where
  | declaration (d : Declaration)
  | statement (s : Stmt)
  | nested (p : Procedure)
  | skipped (token : Token)

end

/-- The parameter types of an external procedure, in parentheses. -/
structure ExternalParams where
  opening : Token
  types : Option (Separated ScalarSpec)
  closing : Terminal
  deriving DecidableEq, Repr

inductive External where
  | vars (keyword : Token) (ty : ScalarSpec) (names : Separated Terminal) (semicolon : Terminal)
  | const (keyword constant : Token) (ty : ScalarSpec) (name semicolon : Terminal)
  | procedure (keyword mark : Token) (name : Terminal) (params : Option ExternalParams)
      (semicolon : Terminal)
  /-- Nothing that can be external starts with `next`. -/
  | missing (keyword next : Token)
  deriving DecidableEq, Repr

inductive ProgramItem where
  | declaration (d : Declaration)
  | procedure (p : Procedure)
  | external (e : External)
  | skipped (token : Token)

structure Program where
  keyword : Terminal
  name : Terminal
  opening : Terminal
  items : List ProgramItem
  closing : Terminal
  ending : Terminal

namespace Window

def readParam (w : Window) : Param × Window :=
  let (ty, w₁) := w.readScalarSpec
  let (name, w₂) := w₁.expect .identifier
  (⟨ty, name⟩, w₂)

mutual

def readProcedure (g : Grammar) : Nat → Window → Procedure × Window
  | 0, w =>
      (.mk w.ahead (.missing .identifier w.ahead) (.missing .openParen w.ahead) none
        (.missing .closeParen w.ahead) (.missing .openCurly w.ahead) []
        (.missing .closeCurly w.ahead), w)
  | steps + 1, w =>
      let (name, w₁) := w.advance.expect .identifier
      let (opening, w₂) := w₁.expect .openParen
      let (params, w₃) := w₂.separatedUnlessClosed readParam steps
      let (closing, w₄) := w₃.expect .closeParen
      let (brace, w₅) := w₄.expect .openCurly
      let (body, w₆) := readBodyItems g steps w₅
      let (closingBrace, w₇) := w₆.expect .closeCurly
      (.mk w.ahead name opening params closing brace body closingBrace, w₇)

def readBodyItems (g : Grammar) : Nat → Window → List BodyItem × Window
  | 0, w => ([], w)
  | steps + 1, w =>
      if w.atListEnd then ([], w)
      else
        match w.readDeclaration? g steps with
        | some (d, w₁) =>
            let (more, w₂) := readBodyItems g steps w₁
            (.declaration d :: more, w₂)
        | none =>
            if w.kind = .kwVoid then
              let (p, w₁) := readProcedure g steps w
              let (more, w₂) := readBodyItems g steps w₁
              (.nested p :: more, w₂)
            else if g.startsStmt w.kind then
              let (s, w₁) := w.readStmt g steps
              let (more, w₂) := readBodyItems g steps w₁
              (.statement s :: more, w₂)
            else
              let (more, w₁) := readBodyItems g steps w.advance
              (.skipped w.ahead :: more, w₁)

end

def readExternalParams? (steps : Nat) (w : Window) : Option ExternalParams × Window :=
  if w.kind = .openParen then
    let (types, w₁) := w.advance.separatedUnlessClosed readScalarSpec steps
    let (closing, w₂) := w₁.expect .closeParen
    (some ⟨w.ahead, types, closing⟩, w₂)
  else (none, w)

def readExternal (steps : Nat) (w : Window) : External × Window :=
  let w₁ := w.advance
  match w₁.kind with
  | .kwInt | .kwBool =>
      let (ty, w₂) := w₁.readScalarSpec
      let (names, w₃) := w₂.separated (fun w => w.expect .identifier) steps
      let (semicolon, w₄) := w₃.expect .semicolon
      (.vars w.ahead ty names semicolon, w₄)
  | .kwConst =>
      let (ty, w₂) := w₁.advance.readScalarSpec
      let (name, w₃) := w₂.expect .identifier
      let (semicolon, w₄) := w₃.expect .semicolon
      (.const w.ahead w₁.ahead ty name semicolon, w₄)
  | .kwProcedure =>
      match w₁.advance.expect .identifier with
      | (.missing kind next, w₂) =>
          let (semicolon, w₃) := w₂.expect .semicolon
          (.procedure w.ahead w₁.ahead (.missing kind next) none semicolon, w₃)
      | (.read name, w₂) =>
          let (params, w₃) := w₂.readExternalParams? steps
          let (semicolon, w₄) := w₃.expect .semicolon
          (.procedure w.ahead w₁.ahead (.read name) params semicolon, w₄)
  | _ => (.missing w.ahead w₁.ahead, w₁)

def readProgramItems (g : Grammar) : Nat → Window → List ProgramItem × Window
  | 0, w => ([], w)
  | steps + 1, w =>
      if w.atListEnd then ([], w)
      else
        match w.readDeclaration? g steps with
        | some (d, w₁) =>
            let (more, w₂) := readProgramItems g steps w₁
            (.declaration d :: more, w₂)
        | none =>
            if w.kind = .kwVoid then
              let (p, w₁) := w.readProcedure g steps
              let (more, w₂) := readProgramItems g steps w₁
              (.procedure p :: more, w₂)
            else if w.kind = .kwExternal then
              let (e, w₁) := w.readExternal steps
              let (more, w₂) := readProgramItems g steps w₁
              (.external e :: more, w₂)
            else
              let (more, w₁) := readProgramItems g steps w.advance
              (.skipped w.ahead :: more, w₁)

def readProgram (g : Grammar) (steps : Nat) (w : Window) : Program × Window :=
  let (keyword, w₁) := w.expect .kwProgram
  let (name, w₂) := w₁.expect .identifier
  let (opening, w₃) := w₂.expect .openCurly
  let (items, w₄) := w₃.readProgramItems g steps
  let (closing, w₅) := w₄.expect .closeCurly
  let (ending, w₆) := w₅.expect .eof
  (⟨keyword, name, opening, items, closing, ending⟩, w₆)

end Window
end SlotLang
