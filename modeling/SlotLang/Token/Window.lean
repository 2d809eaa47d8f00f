import SlotLang.Token

/-!
# A window on a token list

A reader of the grammar sees one token ahead.  When the list is used up, the window goes on to show
an end token for ever: the first one of the list, or a made-up one at no position if the list has
none.  Tokens behind the first end token are shown too, if somebody reads so far.
-/

namespace SlotLang

structure Window where
  rest : List Token
  ending : Token
  deriving DecidableEq, Repr

namespace Window

def ofTokens (tokens : List Token) (file : String) : Window where
  rest := tokens
  ending := (tokens.find? fun t => t.kind = .eof).getD (Token.ending ⟨0, 0, file⟩)

/-- The token ahead. -/
def ahead (w : Window) : Token := w.rest.headD w.ending

def kind (w : Window) : TokenKind := w.ahead.kind

def advance (w : Window) : Window := { w with rest := w.rest.tail }

/-- The number of tokens that are still to be shown before the end token repeats itself. -/
def size (w : Window) : Nat := w.rest.length

theorem kind_ending_ofTokens (tokens : List Token) (file : String) :
    (ofTokens tokens file).ending.kind = .eof := by
  simp only [ofTokens]
  cases hfound : tokens.find? fun t => t.kind = .eof with
  | none => rfl
  | some t => simpa using List.find?_some hfound

@[simp] theorem size_advance (w : Window) : w.advance.size = w.size - 1 := by
  simp [advance, size]

end Window
end SlotLang
