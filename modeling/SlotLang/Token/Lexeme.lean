import SlotLang.Text.Blank
import SlotLang.Token

/-!
# Lexemes

A lexeme is a piece of text that the scanner takes at once: a token, a run of blanks, or a comment.
Each rule says which texts start with a lexeme of its own and where that lexeme ends, by splitting
the text in two.  The rules are tried in a fixed order.  A mark that starts another mark stands
behind it, and the comments stand before the mark that opens them, so that the first rule that
applies is also the one that takes the most.
-/

namespace SlotLang

inductive LexemeRule where
  | word
  | number
  | blanks
  | lineComment
  | blockComment
  | mark (kind : TokenKind)
  deriving DecidableEq, Repr

namespace LexemeRule

def ordered : List LexemeRule :=
  [ word, number, blanks, lineComment, blockComment, mark .openBracket, mark .closeBracket,
    mark .openCurly, mark .closeCurly, mark .openParen, mark .closeParen, mark .assignment,
    mark .notEquals, mark .equals, mark .lessEquals, mark .less, mark .greaterEquals, mark .greater,
    mark .dot, mark .semicolon, mark .colon, mark .question, mark .comma, mark .plus, mark .dash,
    mark .slash, mark .star ]

def isWordStart (c : Char) : Bool := c.isAlpha

def isWordPart (c : Char) : Bool := c.isAlphanum || c = '_'

/-- Splits a text behind its longest run of characters of one class; the run is not empty. -/
def splitRun (inClass : Char → Bool) (s : List Char) : Option (List Char × List Char) :=
  match s with
  | c :: rest =>
      if inClass c then some (c :: rest.takeWhile inClass, rest.dropWhile inClass) else none
  | [] => none

/-- Splits a text behind the first `*/`.  What was passed on the way is held in `passed`, the latest
character first. -/
def splitClosing (passed : List Char) : List Char → Option (List Char × List Char)
  | '*' :: '/' :: rest => some (passed.reverse ++ ['*', '/'], rest)
  | c :: rest => splitClosing (c :: passed) rest
  | [] => none

/-- Splits a text into the lexeme that the rule takes from its start and the text behind it. -/
def split (rule : LexemeRule) (s : List Char) : Option (List Char × List Char) :=
  match rule with
  | word =>
      match s with
      | c :: rest =>
          if isWordStart c then some (c :: rest.takeWhile isWordPart, rest.dropWhile isWordPart)
          else none
      | [] => none
  | number => splitRun Char.isDigit s
  | blanks => splitRun Text.isBlank s
  | lineComment =>
      match s with
      | '/' :: '/' :: rest =>
          some ('/' :: '/' :: rest.takeWhile (· ≠ '\n'), rest.dropWhile (· ≠ '\n'))
      | _ => none
  | blockComment =>
      match s with
      | '/' :: '*' :: rest => splitClosing ['*', '/'] rest
      | _ => none
  | mark kind =>
      match kind.spelling? with
      | some spelling =>
          (spelling.toList.isPrefixOf? s).map fun rest => (spelling.toList, rest)
      | none => none

/-- The kind of the token that a lexeme becomes; blanks and comments become none. -/
def kind? (rule : LexemeRule) (lexeme : List Char) : Option TokenKind :=
  match rule with
  | word => some (TokenKind.ofWord (String.ofList lexeme))
  | number => some .number
  | mark kind => some kind
  | blanks | lineComment | blockComment => none

/-- The first rule that applies to a text, with the lexeme and the text behind it. -/
def first? (s : List Char) : Option (LexemeRule × List Char × List Char) :=
  ordered.findSome? fun rule => (rule.split s).map fun parts => (rule, parts)

end LexemeRule
end SlotLang
