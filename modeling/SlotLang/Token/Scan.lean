import SlotLang.Fault
import SlotLang.Token.Lexeme
import SlotLang.Token.Reader

/-!
# Scanning

The scanner cuts a text into lexemes from left to right and keeps those that are tokens, each with
the positions before and behind it.  It ends with the token for the end of the text, or it stops at
the first character that starts no lexeme.  Every lexeme has at least one character, so that the
number of characters bounds the number of steps.
-/

namespace SlotLang

/-- Scans at most `fuel` lexemes; `found` holds the tokens so far, the latest first. -/
def scanFuel (fuel : Nat) (r : Reader) (found : List Token) : Except PlacedFault (List Token) :=
  match fuel, r.rest with
  | 0, _ | _, [] => .ok (Token.ending r.position :: found).reverse
  | fuel + 1, c :: _ =>
      match LexemeRule.first? r.rest with
      | none => .error ⟨.unrecognised (String.singleton c), r.position⟩
      | some (rule, lexeme, rest) =>
          let next := r.moveTo lexeme rest
          match rule.kind? lexeme with
          | some kind =>
              scanFuel fuel next (⟨kind, String.ofList lexeme, r.position, next.position⟩ :: found)
          | none => scanFuel fuel next found

/-- The tokens of a source text. -/
def scan (source file : String) : Except PlacedFault (List Token) :=
  let r := Reader.new source file
  scanFuel r.rest.length r []

end SlotLang
