/-!
# Numerals

The value of a numeral is read from its text.  A numeral has at least one decimal digit and may have
a plus sign in front; a signed one may have a minus sign instead.  A value that does not fit into a
machine word of sixty-four bits is not read at all, however many leading zeros it has.
-/

namespace SlotLang
namespace Text

/-- One more than the largest unsigned word, two to the power of 64. -/
def wordBound : Nat := 18446744073709551616

/-- One more than the largest signed word, two to the power of 63. -/
def signedBound : Nat := 9223372036854775808

def digitValue (c : Char) : Nat :=
  c.toNat - '0'.toNat

/-- The number that a list of decimal digits spells, most significant first. -/
def decimalValue (digits : List Char) : Nat :=
  digits.foldl (fun value c => 10 * value + digitValue c) 0

def digits? (digits : List Char) : Option Nat :=
  if digits ≠ [] ∧ digits.all Char.isDigit then some (decimalValue digits) else none

/-- Reads an unsigned numeral. -/
def word? (text : String) : Option Nat := do
  let value ← match text.toList with
    | '+' :: digits => digits? digits
    | digits => digits? digits
  if value < wordBound then some value else none

/-- Reads a signed numeral. -/
def integer? (text : String) : Option Int :=
  match text.toList with
  | '-' :: digits => do
      let value ← digits? digits
      if value ≤ signedBound then some (-(value : Int)) else none
  | '+' :: digits => positive? digits
  | digits => positive? digits
where
  positive? (digits : List Char) : Option Int := do
    let value ← digits? digits
    if value < signedBound then some (value : Int) else none

end Text
end SlotLang
