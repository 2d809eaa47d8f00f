import SlotLang.Diagnostic

/-!
# The reporter

One mistake in a text tends to be noticed several times within a few tokens.  The reporter keeps the
first notice and drops those that follow it too closely: a fault surfaces only if enough tokens were
consumed since the fault before it, and every fault, surfaced or not, starts the count of tokens
again.  Warnings always surface and leave the count alone.

The reporter only listens.  What it hears is a sequence of events, and nothing that produces events
ever looks at it.
-/

namespace SlotLang

/-- What a reader of tokens tells the reporter. -/
inductive Event where
  | consumed
  | fault (e : PlacedFault)
  | warning (message : String) (position : Position)
  deriving DecidableEq, Repr

structure Reporter where
  /-- The least number of tokens between two faults that both surface. -/
  minDistance : Nat
  /-- The number of tokens since the last fault. -/
  distance : Nat
  /-- What has surfaced so far, the latest first. -/
  recorded : List Diagnostic
  /-- The number of faults among what has surfaced. -/
  count : Nat
  deriving Repr

namespace Reporter

def defaultDistance : Nat := 2

/-- A new reporter lets the very first fault surface. -/
def new (minDistance : Nat) : Reporter := ⟨minDistance, minDistance, [], 0⟩

def tokenConsumed (r : Reporter) : Reporter :=
  { r with distance := r.distance + 1 }

def surfaces (r : Reporter) : Bool :=
  r.minDistance ≤ r.distance

def report (r : Reporter) (e : PlacedFault) : Reporter :=
  if r.surfaces then
    { r with distance := 0, recorded := .fault e :: r.recorded, count := r.count + 1 }
  else
    { r with distance := 0 }

def warn (r : Reporter) (message : String) (position : Position) : Reporter :=
  { r with recorded := .warning message position :: r.recorded }

def hear (r : Reporter) : Event → Reporter
  | .consumed => r.tokenConsumed
  | .fault e => r.report e
  | .warning message position => r.warn message position

def hearAll (r : Reporter) (events : List Event) : Reporter :=
  events.foldl hear r

/-- The diagnostics in the order in which they surfaced. -/
def diagnostics (r : Reporter) : List Diagnostic :=
  r.recorded.reverse

@[simp] theorem hearAll_nil (r : Reporter) : r.hearAll [] = r := rfl

@[simp] theorem hearAll_cons (r : Reporter) (event : Event) (events : List Event) :
    r.hearAll (event :: events) = (r.hear event).hearAll events := rfl

@[simp] theorem hearAll_append (r : Reporter) (first second : List Event) :
    r.hearAll (first ++ second) = (r.hearAll first).hearAll second := by
  simp [hearAll]

end Reporter
end SlotLang
