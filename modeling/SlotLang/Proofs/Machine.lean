import Mathlib.Logic.Function.Basic
import Mathlib.Logic.Relation
import SlotLang.Proofs.Action
import SlotLang.Proofs.JumpTargets

/-!
# The stack machine

The machine that listings are written for, as far as one activation of a procedure goes.  It has an
operand stack of integers, one storage cell for every address, an input and an output.  Truth values
are one and zero.  A jump goes to the instruction that carries its label, and the labels are compared
as they are written.

The machine is stuck where an operand is missing, where something is divided by zero or read from an
empty input, and at everything that starts or ends an activation.
-/

namespace SlotLang

/-- What statements read and change: the storage, the input that is left and the output so far. -/
structure Memory where
  store : Cell → Int
  input : List Int
  output : List Int

namespace Memory

def set (m : Memory) (cell : Cell) (value : Int) : Memory :=
  { m with store := Function.update m.store cell value }

def write (m : Memory) (value : Int) : Memory :=
  { m with output := m.output ++ [value] }

/-- The next value of the input, and what is left. -/
def read? (m : Memory) : Option (Int × Memory) :=
  match m.input with
  | [] => none
  | value :: rest => some (value, { m with input := rest })

end Memory

def ArithOp.eval? : ArithOp → Int → Int → Option Int
  | add, a, b => some (a + b)
  | sub, a, b => some (a - b)
  | mul, a, b => some (a * b)
  | div, a, b => if b = 0 then none else some (a.tdiv b)

def Comparison.eval : Comparison → Int → Int → Int
  | equ, a, b => if a = b then 1 else 0
  | lss, a, b => if a < b then 1 else 0
  | gtr, a, b => if b < a then 1 else 0
  | neq, a, b => if a = b then 0 else 1
  | leq, a, b => if a ≤ b then 1 else 0
  | geq, a, b => if b ≤ a then 1 else 0

/-- What an operation that does not jump does to the operand stack and the memory. -/
def Op.run? : Op → List Int → Memory → Option (List Int × Memory)
  | .const value, stack, m => some (value :: stack, m)
  | .arith op, b :: a :: stack, m => (op.eval? a b).map fun value => (value :: stack, m)
  | .neg, a :: stack, m => some (~~~a :: stack, m)
  | .compare op, b :: a :: stack, m => some (op.eval a b :: stack, m)
  | .load level offset, stack, m => some (m.store (.frame level offset) :: stack, m)
  | .loadGlobal address, stack, m => some (m.store (.global address) :: stack, m)
  | .store level offset, value :: stack, m => some (stack, m.set (.frame level offset) value)
  | .storeGlobal address, value :: stack, m => some (stack, m.set (.global address) value)
  | .read, stack, m => m.read?.map fun (value, m) => (value :: stack, m)
  | .write, value :: stack, m => some (stack, m.write value)
  | .nop, stack, m => some (stack, m)
  | _, _, _ => none

structure Config where
  pc : Nat
  stack : List Int
  memory : Memory

/-- The address of the instruction that carries a label. -/
def labelAddress? (listing : List Instruction) (label : Label) : Option Nat :=
  listing.findIdx? (·.carries label.text)

def step? (listing : List Instruction) (s : Config) : Option Config :=
  match listing[s.pc]?, s.stack with
  | none, _ => none
  | some ⟨_, .jump label⟩, stack =>
      (labelAddress? listing label).map fun pc => ⟨pc, stack, s.memory⟩
  | some ⟨_, .jumpUnless _⟩, [] => none
  | some ⟨_, .jumpUnless label⟩, value :: stack =>
      if value = 0 then (labelAddress? listing label).map fun pc => ⟨pc, stack, s.memory⟩
      else some ⟨s.pc + 1, stack, s.memory⟩
  | some ⟨_, op⟩, stack => (op.run? stack s.memory).map fun (stack, m) => ⟨s.pc + 1, stack, m⟩

/-- The machine gets from one configuration to another. -/
def Steps (listing : List Instruction) : Config → Config → Prop :=
  Relation.ReflTransGen fun s s' => step? listing s = some s'

/-- The same, in at most `k` steps. -/
inductive Arrives (listing : List Instruction) (final : Config) : Nat → Config → Prop where
  | here (k : Nat) : Arrives listing final k final
  | step {k : Nat} {s s' : Config} (h : step? listing s = some s')
      (hrest : Arrives listing final k s') : Arrives listing final (k + 1) s

section

variable {listing : List Instruction} {final s s' : Config} {k : Nat}

theorem Steps.arrives (h : Steps listing s final) : ∃ k, Arrives listing final k s := by
  induction h using Relation.ReflTransGen.head_induction_on with
  | refl => exact ⟨0, .here 0⟩
  | head hstep _ ih =>
    obtain ⟨k, hk⟩ := ih
    exact ⟨k + 1, .step hstep hk⟩

/-- The machine is deterministic. -/
theorem Steps.of_step (h : Steps listing s final) (hstep : step? listing s = some s')
    (hne : s ≠ final) : Steps listing s' final := by
  rcases h.cases_head with heq | ⟨s₁, hs₁, hrest⟩
  · exact absurd heq hne
  · cases hstep.symm.trans hs₁
    exact hrest

theorem Arrives.mono (h : Arrives listing final k s) {l : Nat} (hle : k ≤ l) :
    Arrives listing final l s := by
  induction h generalizing l with
  | here k => exact .here l
  | @step k s s' hstep hrest ih =>
    obtain ⟨l, rfl⟩ : ∃ j, l = j + 1 := ⟨l - 1, by omega⟩
    exact .step hstep (ih (by omega))

/-- A configuration at the end of a procedure. -/
def Config.AtLeave (listing : List Instruction) (s : Config) : Prop :=
  ∃ i, listing[s.pc]? = some i ∧ i.op = .leave

/-- If the machine arrives at the end of the procedure from anywhere else, it takes a step. -/
theorem Arrives.next (hfinal : final.AtLeave listing) (h : Arrives listing final k s)
    {i : Instruction} (hi : listing[s.pc]? = some i) (hop : i.op ≠ .leave) :
    ∃ j s', k = j + 1 ∧ step? listing s = some s' ∧ Arrives listing final j s' := by
  cases h with
  | here =>
    obtain ⟨i', hi', hleave⟩ := hfinal
    cases hi.symm.trans hi'
    exact absurd hleave hop
  | step hstep hrest => exact ⟨_, _, rfl, hstep, hrest⟩

end

/-! ## Pieces of code -/

/-- The code stands in the listing, from the address `pc` up to `stop`. -/
def Segment (listing : List Instruction) : Nat → List Emitted → Nat → Prop
  | pc, [], stop => pc = stop
  | pc, x :: code, stop =>
      listing[pc]? = some x.instruction ∧ Segment listing (pc + 1) code stop

theorem segment_append {listing : List Instruction} {first second : List Emitted} {pc stop : Nat} :
    Segment listing pc (first ++ second) stop ↔
      ∃ middle, Segment listing pc first middle ∧ Segment listing middle second stop := by
  induction first generalizing pc with
  | nil => simp [Segment]
  | cons x first ih => simp [Segment, ih, and_assoc]

theorem Segment.stop_eq {listing : List Instruction} {code : List Emitted} {pc stop : Nat}
    (h : Segment listing pc code stop) : stop = pc + code.length := by
  induction code generalizing pc with
  | nil => exact h.symm
  | cons x code ih =>
    rw [ih h.2, List.length_cons]
    omega

theorem segment_of_append (front back : List Instruction) (code : List Emitted) :
    Segment (front ++ erase code ++ back) front.length code (front.length + code.length) := by
  induction code generalizing front with
  | nil => rfl
  | cons x code ih =>
    refine ⟨by simp, ?_⟩
    have hrest := ih (front ++ [x.instruction])
    simp only [List.length_append, List.length_cons, List.length_nil] at hrest
    simpa [Nat.add_assoc, Nat.add_comm, Nat.add_left_comm] using hrest

/-- An operation behind which the machine goes on with the next instruction, unless it is stuck. -/
def Op.straight : Op → Bool
  | .const _ | .arith _ | .neg | .compare _ | .load _ _ | .loadGlobal _ | .store _ _
  | .storeGlobal _ | .read | .write | .nop => true
  | _ => false

def Emitted.straight (x : Emitted) : Bool := x.op.straight

/-- What code without jumps does to the operand stack and the memory. -/
def runAll? : List Emitted → List Int → Memory → Option (List Int × Memory)
  | [], stack, m => some (stack, m)
  | x :: code, stack, m => (x.op.run? stack m).bind fun (stack, m) => runAll? code stack m

theorem runAll?_append (first second : List Emitted) (stack : List Int) (m : Memory) :
    runAll? (first ++ second) stack m =
      (runAll? first stack m).bind fun (stack, m) => runAll? second stack m := by
  induction first generalizing stack m with
  | nil => rfl
  | cons x first ih => simp [runAll?, ih, Option.bind_assoc]

section

variable {listing : List Instruction} {final : Config} {k pc stop : Nat} {stack : List Int}
  {m : Memory}

theorem step?_of_straight {x : Emitted} (hx : x.straight = true)
    (hpc : listing[pc]? = some x.instruction) :
    step? listing ⟨pc, stack, m⟩ =
      (x.op.run? stack m).map fun (stack, m) => ⟨pc + 1, stack, m⟩ := by
  obtain ⟨⟨label, op⟩, origin⟩ := x
  unfold step?
  simp only [hpc]
  cases op <;> first | rfl | cases hx

theorem Segment.steps {code : List Emitted} (h : Segment listing pc code stop)
    (hstraight : code.all Emitted.straight = true) {stack' : List Int} {m' : Memory}
    (hrun : runAll? code stack m = some (stack', m')) :
    Steps listing ⟨pc, stack, m⟩ ⟨stop, stack', m'⟩ := by
  induction code generalizing pc stack m with
  | nil =>
    cases h
    cases hrun
    exact .refl
  | cons x code ih =>
    obtain ⟨hx, hcode⟩ := (List.all_cons ▸ Bool.and_eq_true_iff).mp hstraight
    obtain ⟨⟨stack₁, m₁⟩, hfirst, hrest⟩ := Option.bind_eq_some_iff.mp hrun
    have hstep : step? listing ⟨pc, stack, m⟩ = some ⟨pc + 1, stack₁, m₁⟩ := by
      rw [step?_of_straight hx h.1, hfirst]
      rfl
    exact .head hstep (ih h.2 hcode hrest)

/-- If the machine arrives from the start of code without jumps, it arrives from its end. -/
theorem Segment.arrives (hfinal : final.AtLeave listing) {code : List Emitted}
    (h : Segment listing pc code stop) (hstraight : code.all Emitted.straight = true)
    (harrives : Arrives listing final k ⟨pc, stack, m⟩) :
    ∃ stack' m', runAll? code stack m = some (stack', m') ∧
      Arrives listing final k ⟨stop, stack', m'⟩ := by
  induction code generalizing pc stack m k with
  | nil =>
    cases h
    exact ⟨stack, m, rfl, harrives⟩
  | cons x code ih =>
    obtain ⟨hx, hcode⟩ := (List.all_cons ▸ Bool.and_eq_true_iff).mp hstraight
    have hleave : x.op ≠ .leave := by
      intro hop
      rw [Emitted.straight, hop] at hx
      cases hx
    obtain ⟨j, s, rfl, hstep, hrest⟩ := harrives.next hfinal h.1 hleave
    rw [step?_of_straight hx h.1] at hstep
    obtain ⟨⟨stack', m'⟩, hrun, rfl⟩ := Option.map_eq_some_iff.mp hstep
    obtain ⟨stack'', m'', hrunAll, hfinish⟩ := ih h.2 hcode hrest
    refine ⟨stack'', m'', ?_, hfinish.mono (Nat.le_succ j)⟩
    rw [runAll?, hrun]
    exact hrunAll

end

/-! ## Jumps -/

/-- Every label of the supply leads to the instruction that lands it. -/
def Resolvable (listing : List Instruction) : Prop :=
  ∀ (pc n : Nat), listing[pc]? = some (.landing (.fresh n)) →
    labelAddress? listing (.fresh n) = some pc

theorem findIdx?_of_countP_le_one {α : Type} {q : α → Bool} {items : List α}
    (hcount : items.countP q ≤ 1) {k : Nat} {x : α} (hx : items[k]? = some x) (hq : q x = true) :
    items.findIdx? q = some k := by
  induction items generalizing k with
  | nil => simp at hx
  | cons y items ih =>
    cases k with
    | zero =>
      cases hx
      simp [List.findIdx?_cons, hq]
    | succ k =>
      have hpos : 0 < items.countP q :=
        List.countP_pos_iff.mpr ⟨x, List.mem_of_getElem? hx, hq⟩
      have hy : q y = false := by
        by_contra htrue
        rw [List.countP_cons, if_pos (by simpa using htrue)] at hcount
        omega
      rw [List.countP_cons, hy] at hcount
      rw [List.findIdx?_cons, hy, ih (by simpa using hcount) hx]
      rfl

theorem Linked.resolvable {drawn : Nat} {listing : List Instruction} (h : Linked drawn listing) :
    Resolvable listing := by
  intro pc n hpc
  refine findIdx?_of_countP_le_one ?_ hpc (by simp [Instruction.carries, Instruction.landing,
    Instruction.labelled])
  rw [h.carried n]
  split <;> omega

section

variable {listing : List Instruction} (hlabels : Resolvable listing) {final : Config}
  {k pc target n : Nat} {stack : List Int} {m : Memory}

include hlabels

theorem step?_jump (hpc : listing[pc]? = some (Emitted.jump n).instruction)
    (htarget : listing[target]? = some (Emitted.landing n).instruction) :
    step? listing ⟨pc, stack, m⟩ = some ⟨target, stack, m⟩ := by
  simp [step?, hpc, Instruction.plain, hlabels target n htarget]

theorem step?_jumpUnless {value : Int}
    (hpc : listing[pc]? = some (Emitted.jumpUnless n).instruction)
    (htarget : listing[target]? = some (Emitted.landing n).instruction) :
    step? listing ⟨pc, value :: stack, m⟩ =
      some ⟨if value = 0 then target else pc + 1, stack, m⟩ := by
  by_cases hvalue : value = 0
  · simp [step?, hpc, Instruction.plain, hvalue, hlabels target n htarget]
  · simp [step?, hpc, Instruction.plain, hvalue]

theorem Arrives.jump (hfinal : final.AtLeave listing)
    (hpc : listing[pc]? = some (Emitted.jump n).instruction)
    (htarget : listing[target]? = some (Emitted.landing n).instruction)
    (h : Arrives listing final k ⟨pc, stack, m⟩) :
    ∃ j < k, Arrives listing final j ⟨target, stack, m⟩ := by
  obtain ⟨j, s, rfl, hstep, hrest⟩ := h.next hfinal hpc nofun
  rw [step?_jump hlabels hpc htarget] at hstep
  cases hstep
  exact ⟨j, Nat.lt_succ_self j, hrest⟩

theorem Arrives.jumpUnless (hfinal : final.AtLeave listing) {value : Int}
    (hpc : listing[pc]? = some (Emitted.jumpUnless n).instruction)
    (htarget : listing[target]? = some (Emitted.landing n).instruction)
    (h : Arrives listing final k ⟨pc, value :: stack, m⟩) :
    Arrives listing final k ⟨if value = 0 then target else pc + 1, stack, m⟩ := by
  obtain ⟨j, s, rfl, hstep, hrest⟩ := h.next hfinal hpc nofun
  rw [step?_jumpUnless hlabels hpc htarget] at hstep
  cases hstep
  exact hrest.mono (Nat.le_succ j)

end

end SlotLang
