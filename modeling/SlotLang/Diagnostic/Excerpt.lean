import SlotLang.Fault
import SlotLang.Text.Blank
import SlotLang.Text.ByteSize

/-!
# Excerpts

A fault that stops the scanner is shown with the line it was found in and a mark below the place.
The line is shown without the blanks at its ends, and the mark moves to the left by the size in
bytes of what was dropped at the start.  A mark that is too far to the right cannot be drawn.
-/

namespace SlotLang

namespace Text

/-- The line with the given index, counted from zero, of a text. -/
def lineAt : Nat → List Char → List Char
  | 0, s => s.takeWhile (· ≠ '\n')
  | n + 1, s => lineAt n (s.dropWhile (· ≠ '\n')).tail

def dropLeadingBlanks (s : List Char) : List Char := s.dropWhile isBlank

def dropTrailingBlanks (s : List Char) : List Char := (s.reverse.dropWhile isBlank).reverse

/-- The size of the blanks at the start of a text, in bytes of its UTF-8 form. -/
def leadingBlankBytes (s : List Char) : Nat :=
  byteSize (s.takeWhile isBlank)

/-- Fills a text on the left up to a width. -/
def padLeft (fill : Char) (width : Nat) (text : String) : String :=
  String.ofList (List.replicate (width - text.length) fill) ++ text

end Text

namespace PlacedFault

/-- The number of columns up to the mark and with it. -/
def markWidth (e : PlacedFault) (line : List Char) : Nat :=
  max 1 (e.position.col - Text.leadingBlankBytes line)

/-- The greatest width at which a mark can be drawn. -/
def markLimit : Nat := 65535

/-- The line of a source text that a fault was found in. -/
def faultyLine (e : PlacedFault) (source : String) : List Char :=
  Text.lineAt (e.position.line - 1) source.toList

/-- The margin of a line that has no number. -/
def margin (e : PlacedFault) : String :=
  Text.padLeft ' ' ((toString e.position.line).length + 2) "|"

/-- The lines that show a fault in a source text, which was read from the given path. -/
def excerpt (e : PlacedFault) (source path : String) : List String :=
  let shown := Text.dropTrailingBlanks (Text.dropLeadingBlanks (e.faultyLine source))
  [ e.text,
    "Error: " ++ e.fault.name,
    "-> " ++ path,
    e.margin,
    toString e.position.line ++ " | " ++ String.ofList shown ]

/-- The line with the mark, which stands below an excerpt. -/
def markLine? (e : PlacedFault) (source : String) : Option String :=
  let width := e.markWidth (e.faultyLine source)
  if width ≤ markLimit then some (e.margin ++ " " ++ Text.padLeft '-' width "^") else none

end PlacedFault
end SlotLang
