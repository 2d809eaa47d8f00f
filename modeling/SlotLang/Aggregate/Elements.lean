/-!
# The elements of an array

An array is stored as one scalar per element, and the elements get names of their own: the name of
the array and an index for every dimension.  A bound admits the indices from zero up to itself, and
the last index varies fastest.  An array with more elements than the limit is not flattened at all.
-/

namespace SlotLang
namespace Aggregate

/-- The largest number of scalars that one declaration may add. -/
def elementLimit : Nat := 65536

def indexed (base : String) (index : Nat) : String :=
  base ++ "[" ++ toString index ++ "]"

/-- The number of elements of an array with the given bounds. -/
def elementCount (bounds : List Nat) : Nat :=
  (bounds.map (· + 1)).foldl (· * ·) 1

/-- The names of all elements, in the order of their storage. -/
def allElements (base : String) : List Nat → List String
  | [] => [base]
  | bound :: bounds =>
      (List.range (bound + 1)).flatMap fun index => allElements (indexed base index) bounds

/-- The names of the elements, unless there are too many of them. -/
def elements? (base : String) (bounds : List Nat) : Option (List String) :=
  if elementCount bounds ≤ elementLimit then some (allElements base bounds) else none

end Aggregate
end SlotLang
