import SlotLang.Position

/-!
# Tokens

The vocabulary of the language: names, numbers, marks, reserved words, and the end of the text.  A
token pairs a kind with the characters it was read from and with the two positions between which
they stand.  Only the kind matters to the grammar; the characters matter to the meaning.
-/

namespace SlotLang

inductive TokenKind where
  | eof
  | number
  | identifier
  | openBracket
  | closeBracket
  | openCurly
  | closeCurly
  | openParen
  | closeParen
  | assignment
  | equals
  | notEquals
  | less
  | lessEquals
  | greater
  | greaterEquals
  | dot
  | semicolon
  | colon
  | question
  | comma
  | plus
  | dash
  | slash
  | star
  | kwProgram
  | kwConst
  | kwInt
  | kwBool
  | kwTrue
  | kwFalse
  | kwStruct
  | kwVoid
  | kwExternal
  | kwProcedure
  | kwIf
  | kwElse
  | kwWhile
  | kwFor
  | kwSwitch
  | kwCase
  | kwDefault
  | kwRead
  | kwWrite
  deriving DecidableEq, Repr

namespace TokenKind

def all : List TokenKind :=
  [ eof, number, identifier, openBracket, closeBracket, openCurly, closeCurly, openParen,
    closeParen, assignment, equals, notEquals, less, lessEquals, greater, greaterEquals, dot,
    semicolon, colon, question, comma, plus, dash, slash, star, kwProgram, kwConst, kwInt, kwBool,
    kwTrue, kwFalse, kwStruct, kwVoid, kwExternal, kwProcedure, kwIf, kwElse, kwWhile, kwFor,
    kwSwitch, kwCase, kwDefault, kwRead, kwWrite ]

/-- The name of a kind in a token dump. -/
def name : TokenKind → String
  | eof => "EOF"
  | number => "Number"
  | identifier => "Identifier"
  | openBracket => "OpenBracket"
  | closeBracket => "CloseBracket"
  | openCurly => "OpenCurly"
  | closeCurly => "CloseCurly"
  | openParen => "OpenParen"
  | closeParen => "CloseParen"
  | assignment => "Assignment"
  | equals => "Equals"
  | notEquals => "NotEquals"
  | less => "Less"
  | lessEquals => "LessEquals"
  | greater => "Greater"
  | greaterEquals => "GreaterEquals"
  | dot => "Dot"
  | semicolon => "Semicolon"
  | colon => "Colon"
  | question => "Question"
  | comma => "Comma"
  | plus => "Plus"
  | dash => "Dash"
  | slash => "Slash"
  | star => "Star"
  | kwProgram => "Program"
  | kwConst => "Const"
  | kwInt => "Int"
  | kwBool => "Bool"
  | kwTrue => "True"
  | kwFalse => "False"
  | kwStruct => "Struct"
  | kwVoid => "Void"
  | kwExternal => "External"
  | kwProcedure => "Procedure"
  | kwIf => "If"
  | kwElse => "Else"
  | kwWhile => "While"
  | kwFor => "For"
  | kwSwitch => "Switch"
  | kwCase => "Case"
  | kwDefault => "Default"
  | kwRead => "Read"
  | kwWrite => "Write"

/-- The spelling of a mark or of a reserved word; the other kinds have none of their own. -/
def spelling? : TokenKind → Option String
  | eof | number | identifier => none
  | openBracket => some "["
  | closeBracket => some "]"
  | openCurly => some "\x7b"
  | closeCurly => some "\x7d"
  | openParen => some "("
  | closeParen => some ")"
  | assignment => some ":="
  | equals => some "="
  | notEquals => some "!="
  | less => some "<"
  | lessEquals => some "<="
  | greater => some ">"
  | greaterEquals => some ">="
  | dot => some "."
  | semicolon => some ";"
  | colon => some ":"
  | question => some "?"
  | comma => some ","
  | plus => some "+"
  | dash => some "-"
  | slash => some "/"
  | star => some "*"
  | kwProgram => some "program"
  | kwConst => some "const"
  | kwInt => some "int"
  | kwBool => some "bool"
  | kwTrue => some "true"
  | kwFalse => some "false"
  | kwStruct => some "struct"
  | kwVoid => some "void"
  | kwExternal => some "external"
  | kwProcedure => some "procedure"
  | kwIf => some "if"
  | kwElse => some "else"
  | kwWhile => some "while"
  | kwFor => some "for"
  | kwSwitch => some "switch"
  | kwCase => some "case"
  | kwDefault => some "default"
  | kwRead => some "read"
  | kwWrite => some "write"

/-- What a message calls a kind that was expected. -/
def describe (kind : TokenKind) : String :=
  match kind.spelling? with
  | some spelling => "\"" ++ spelling ++ "\""
  | none =>
      match kind with
      | number => "number"
      | identifier => "ident"
      | _ => "EOF"

/-- The kinds whose spelling is a reserved word. -/
def reservedWords : List TokenKind :=
  [ kwProgram, kwConst, kwInt, kwBool, kwTrue, kwFalse, kwStruct, kwVoid, kwExternal, kwProcedure,
    kwIf, kwElse, kwWhile, kwFor, kwSwitch, kwCase, kwDefault, kwRead, kwWrite ]

def reserved? (word : String) : Option TokenKind :=
  reservedWords.find? fun kind => kind.spelling? = some word

/-- The kind of a word: the reserved one, if the word is reserved, else a name. -/
def ofWord (word : String) : TokenKind :=
  (reserved? word).getD identifier

end TokenKind

structure Token where
  kind : TokenKind
  value : String
  start : Position
  stop : Position
  deriving DecidableEq, Repr

namespace Token

/-- The token that ends every text. -/
def ending (p : Position) : Token := ⟨.eof, "EOF", p, p⟩

def text (t : Token) : String :=
  "Token \x7b\nkind: " ++ t.kind.name ++ ",\nvalue: " ++ t.value ++ "\x7d"

end Token
end SlotLang
