import SlotLang.Token.Window

/-!
# Reading terminals

A tree of the grammar records every token that was read for it, and in place of every token that
it wanted and did not find, the token that stood there instead.  A missing token is not skipped:
reading goes on in front of it.  So a tree tells both what was read and what was wrong with it,
and whoever walks over it from left to right meets the two in the order in which they came up.

All reading is bounded by a number of steps.  Each step that does not end a construct takes a token,
and the number of steps that a window allows for is large enough for all of its tokens.
-/

namespace SlotLang

inductive Terminal where
  | read (token : Token)
  /-- A token of this kind was wanted in front of `next`. -/
  | missing (kind : TokenKind) (next : Token)
  deriving DecidableEq, Repr

namespace Terminal

def token? : Terminal → Option Token
  | read token => some token
  | missing _ _ => none

/-- The characters of a token that was read. -/
def value? (t : Terminal) : Option String := t.token?.map (·.value)

/-- The characters of a token that was read, or none at all. -/
def valueD (t : Terminal) : String := t.value?.getD ""

end Terminal

/-- One or more items with a separating token between neighbours. -/
structure Separated (α : Type) where
  first : α
  others : List (Token × α)
  deriving DecidableEq, Repr

namespace Window

/-- The number of steps that is enough to read what a window shows. -/
def budget (w : Window) : Nat := 4 * (w.size + 1)

def expect (w : Window) (kind : TokenKind) : Terminal × Window :=
  if w.kind = kind then (.read w.ahead, w.advance) else (.missing kind w.ahead, w)

/-- Reads further items as long as a comma announces one. -/
def moreItems {α : Type} (item : Window → α × Window) : Nat → Window → List (Token × α) × Window
  | 0, w => ([], w)
  | steps + 1, w =>
      if w.kind = .comma then
        let (a, w₁) := item w.advance
        let (more, w₂) := moreItems item steps w₁
        ((w.ahead, a) :: more, w₂)
      else ([], w)

/-- Reads items with commas between them. -/
def separated {α : Type} (item : Window → α × Window) (steps : Nat) (w : Window) :
    Separated α × Window :=
  let (first, w₁) := item w
  let (others, w₂) := w₁.moreItems item steps
  (⟨first, others⟩, w₂)

/-- Reads items with commas between them, or none in front of a closing parenthesis. -/
def separatedUnlessClosed {α : Type} (item : Window → α × Window) (steps : Nat) (w : Window) :
    Option (Separated α) × Window :=
  if w.kind = .closeParen then (none, w)
  else
    let (items, w₁) := w.separated item steps
    (some items, w₁)

end Window
end SlotLang
