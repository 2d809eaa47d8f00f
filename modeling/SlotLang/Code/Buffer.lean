import SlotLang.Code.Storage

/-!
# Code buffers

A buffer collects instructions one after the other; the address of an instruction is its index.  It
hands out labels, and it keeps a stack of labels that were handed out and are still to be landed.
Everything in the buffer can be read, copied, cut off at the end, and replaced in place.
-/

namespace SlotLang

structure CodeBuffer where
  instructions : Array Instruction
  /-- The labels that are still to be landed, the innermost first. -/
  pending : List Label
  nextLabel : Nat
  deriving DecidableEq, Repr

namespace CodeBuffer

def empty : CodeBuffer := ⟨#[], [], 0⟩

/-- The address of the next instruction. -/
def position (b : CodeBuffer) : Nat := b.instructions.size

def push (b : CodeBuffer) (i : Instruction) : CodeBuffer :=
  { b with instructions := b.instructions.push i }

def append (b : CodeBuffer) (code : List Instruction) : CodeBuffer :=
  { b with instructions := b.instructions ++ code }

def emit (b : CodeBuffer) (op : Op) : CodeBuffer := b.push (.plain op)

def land (b : CodeBuffer) (label : Label) : CodeBuffer := b.push (.landing label)

/-! ## Labels -/

def newLabel (b : CodeBuffer) : Label × CodeBuffer :=
  (.fresh b.nextLabel, { b with nextLabel := b.nextLabel + 1 })

def openLabel (b : CodeBuffer) : Label × CodeBuffer :=
  let (label, b) := b.newLabel
  (label, { b with pending := label :: b.pending })

def pendingLabel? (b : CodeBuffer) : Option Label := b.pending.head?

def popLabel (b : CodeBuffer) : Option Label × CodeBuffer :=
  (b.pending.head?, { b with pending := b.pending.tail })

/-- Lands the innermost pending label and gives its address. -/
def closeLabel (b : CodeBuffer) : Option Nat × CodeBuffer :=
  match b.popLabel with
  | (some label, b) => (some b.position, b.land label)
  | (none, b) => (none, b)

/-! ## Ranges -/

def get? (b : CodeBuffer) (index : Nat) : Option Instruction := b.instructions[index]?

/-- The instructions of a range; a range that the buffer does not have is empty. -/
def copyRange (b : CodeBuffer) (start stop : Nat) : List Instruction :=
  if start ≤ stop ∧ stop ≤ b.position then (b.instructions.extract start stop).toList else []

def truncate (b : CodeBuffer) (size : Nat) : CodeBuffer :=
  { b with instructions := b.instructions.take size }

/-- Cuts off everything from `start` on. -/
def takeFrom (b : CodeBuffer) (start : Nat) : List Instruction × CodeBuffer :=
  (b.copyRange start b.position, b.truncate start)

/-- Replaces an instruction, if there is one at that address. -/
def patch (b : CodeBuffer) (index : Nat) (i : Instruction) : CodeBuffer :=
  { b with instructions := b.instructions.setIfInBounds index i }

end CodeBuffer
end SlotLang
