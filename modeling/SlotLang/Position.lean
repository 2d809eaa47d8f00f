/-!
# Positions in a source text

A position is a line and a column of a named text, both counted from one.  Columns count characters,
whatever their size in bytes.
-/

namespace SlotLang

structure Position where
  line : Nat
  col : Nat
  file : String
  deriving DecidableEq, Repr

namespace Position

/-- The name of a text that does not come from a file. -/
def unnamedFile : String := "shell"

def start (file : String) : Position := ⟨1, 1, file⟩

/-- The position behind one character: a line feed opens the next line. -/
def afterChar (p : Position) (c : Char) : Position :=
  if c = '\n' then { p with line := p.line + 1, col := 1 } else { p with col := p.col + 1 }

/-- The position behind a piece of text that starts at `p`. -/
def afterText (p : Position) (text : List Char) : Position :=
  text.foldl afterChar p

def text (p : Position) : String :=
  p.file ++ ":" ++ toString p.line ++ ":" ++ toString p.col

@[simp] theorem afterText_nil (p : Position) : p.afterText [] = p := rfl

@[simp] theorem afterText_append (p : Position) (s t : List Char) :
    p.afterText (s ++ t) = (p.afterText s).afterText t := by
  simp [afterText]

end Position
end SlotLang
