import SlotLang.Position
import SlotLang.Text.ByteSize
import SlotLang.Text.Numeral

/-!
# Reading a text

A reader stands somewhere in a text: it holds what is still to be read, the position of the next
character, and its offset, the number of bytes passed in the UTF-8 form of the text.  Besides by
whole lexemes it can move by a number of bytes.  Such a move stops at the end of the text.  It is
impossible if it would end inside a character, or if the offset that it asks for does not fit into a
machine word, even where the text ends long before.
-/

namespace SlotLang

structure Reader where
  rest : List Char
  position : Position
  offset : Nat
  deriving DecidableEq, Repr

namespace Reader

def new (source file : String) : Reader := ⟨source.toList, .start file, 0⟩

def atEnd (r : Reader) : Bool := r.rest.isEmpty

/-- The next character, or a null character at the end. -/
def peek (r : Reader) : Char := r.rest.headD '\x00'

def remainder (r : Reader) : String := String.ofList r.rest

/-- Moves past `passed`, which leaves `rest` to be read. -/
def moveTo (r : Reader) (passed rest : List Char) : Reader :=
  ⟨rest, r.position.afterText passed, r.offset + Text.byteSize passed⟩

/-- Splits a text behind a number of bytes, or at its end if there are not so many. -/
def splitBytes? : Nat → List Char → Option (List Char × List Char)
  | _, [] => some ([], [])
  | 0, s => some ([], s)
  | count, c :: s =>
      if c.utf8Size ≤ count then
        (splitBytes? (count - c.utf8Size) s).map fun (passed, rest) => (c :: passed, rest)
      else none

/-- Moves past a number of bytes. -/
def skipBytes? (r : Reader) (count : Nat) : Option Reader :=
  if r.offset + count < Text.wordBound then
    (splitBytes? count r.rest).map fun (passed, rest) => r.moveTo passed rest
  else none

end Reader
end SlotLang
