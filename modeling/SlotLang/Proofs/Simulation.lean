import SlotLang.Proofs.Semantics
import SlotLang.Proofs.StackEffect

/-!
# Code means what the statements mean

The machine runs the code of a procedure from behind its parameters to its end if and only if the body
comes to an end, and then with the same effect on the memory.

One direction goes along the meaning of the statements.  The other one starts from a run of the machine
that is known to arrive at the end of the procedure: from every piece of code on the way it arrives
from the end of the piece as well, within the same number of steps, and in the meantime the piece did
what its statement means.  The number of steps left is what a loop needs to be taken apart.
-/

namespace SlotLang

open Emitted

/-! ## Terms -/

@[simp] theorem Cell.run?_loadOp (cell : Cell) (stack : List Int) (m : Memory) :
    cell.loadOp.run? stack m = some (m.store cell :: stack, m) := by
  cases cell <;> rfl

@[simp] theorem Cell.run?_storeOp (cell : Cell) (value : Int) (stack : List Int) (m : Memory) :
    cell.storeOp.run? (value :: stack) m = some (stack, m.set cell value) := by
  cases cell <;> rfl

@[simp] theorem straight_plain (op : Op) : (plain op).straight = op.straight := rfl

@[simp] theorem straight_landing (n : Nat) : (landing n).straight = true := rfl

@[simp] theorem straight_load (u : Use) : (Emitted.load u).straight = true := by
  unfold Emitted.straight Emitted.op Emitted.load
  cases u.cell <;> rfl

@[simp] theorem straight_store (u : Use) : (Emitted.store u).straight = true := by
  unfold Emitted.straight Emitted.op Emitted.store
  cases u.cell <;> rfl

theorem runAll?_store (u : Use) (value : Int) (stack : List Int) (m : Memory) :
    runAll? [Emitted.store u] (value :: stack) m = some (stack, m.set u.cell value) := by
  simp [runAll?, Emitted.op, Emitted.store, Instruction.plain]

theorem complement_add_one (a : Int) : ~~~a + 1 = -a := by
  cases a <;> simp [Complement.complement, Int.not]

theorem Term.code_straight (t : Term) : t.code.all Emitted.straight = true := by
  induction t with
  | number | boolean | use => simp [Term.code, Op.straight]
  | negation operand ih => simp [-List.all_eq_true, Term.code, Op.straight, ih]
  | arithmetic op left right ihLeft ihRight | comparison op left right ihLeft ihRight =>
    simp [-List.all_eq_true, Term.code, Op.straight, ihLeft, ihRight]

/-- The code of a term pushes its value, and it is stuck if the term has none. -/
theorem Term.runAll?_code (t : Term) (stack : List Int) (m : Memory) :
    runAll? t.code stack m = (t.eval? m).map fun value => (value :: stack, m) := by
  induction t generalizing stack with
  | number value => rfl
  | boolean value => rfl
  | use u => simp [Term.code, runAll?, Emitted.op, Emitted.load, Instruction.plain, eval?]
  | negation operand ih =>
    rw [Term.code, runAll?_append, ih, eval?]
    cases operand.eval? m with
    | none => rfl
    | some a =>
      simp [runAll?, Emitted.op, plain, Instruction.plain, Op.run?, ArithOp.eval?,
        complement_add_one]
  | arithmetic op left right ihLeft ihRight =>
    rw [Term.code, runAll?_append, runAll?_append, ihLeft, eval?]
    cases left.eval? m with
    | none => rfl
    | some a =>
      simp only [Option.map_some, Option.bind_some, ihRight, Option.bind_eq_bind]
      cases right.eval? m with
      | none => rfl
      | some b =>
        simp only [Option.map_some, Option.bind_some, runAll?, Emitted.op, plain,
          Instruction.plain, Op.run?]
        cases op.eval? a b <;> rfl
  | comparison op left right ihLeft ihRight =>
    rw [Term.code, runAll?_append, runAll?_append, ihLeft, eval?]
    cases left.eval? m with
    | none => rfl
    | some a =>
      simp only [Option.map_some, Option.bind_some, ihRight, Option.bind_eq_bind]
      cases right.eval? m <;> rfl

section

variable {listing : List Instruction} {final : Config} {k pc stop : Nat} {stack : List Int}
  {m : Memory} {t : Term}

theorem Term.steps (h : Segment listing pc t.code stop) {value : Int}
    (hvalue : t.eval? m = some value) :
    Steps listing ⟨pc, stack, m⟩ ⟨stop, value :: stack, m⟩ := by
  have hrun : runAll? t.code stack m = some (value :: stack, m) := by
    rw [t.runAll?_code, hvalue]
    rfl
  exact h.steps t.code_straight hrun

theorem Term.arrives (hfinal : final.AtLeave listing) (h : Segment listing pc t.code stop)
    (harrives : Arrives listing final k ⟨pc, stack, m⟩) :
    ∃ value, t.eval? m = some value ∧ Arrives listing final k ⟨stop, value :: stack, m⟩ := by
  obtain ⟨stack', m', hrun, hrest⟩ := h.arrives hfinal t.code_straight harrives
  rw [t.runAll?_code] at hrun
  obtain ⟨value, hvalue, heq⟩ := Option.map_eq_some_iff.mp hrun
  cases heq
  exact ⟨value, hvalue, hrest⟩

theorem store_steps {u : Use} {value : Int}
    (hpc : listing[pc]? = some (Emitted.store u).instruction) :
    Steps listing ⟨pc, value :: stack, m⟩ ⟨pc + 1, stack, m.set u.cell value⟩ := by
  have h : Segment listing pc [Emitted.store u] (pc + 1) := ⟨hpc, rfl⟩
  exact h.steps (by simp) (runAll?_store u value stack m)

theorem landing_steps {n : Nat} (hpc : listing[pc]? = some (landing n).instruction) :
    Steps listing ⟨pc, stack, m⟩ ⟨pc + 1, stack, m⟩ := by
  have h : Segment listing pc [landing n] (pc + 1) := ⟨hpc, rfl⟩
  exact h.steps rfl rfl

end

/-! ## Where the parts of the code stand -/

section

variable {listing : List Instruction} {n pc stop : Nat}

theorem Action.segment_choose {u : Use} {guard first second : Term}
    (h : Segment listing pc ((Action.choose u guard first second).code n) stop) :
    ∃ p₁ p₂ p₃, Segment listing pc guard.code p₁ ∧
      listing[p₁]? = some (jumpUnless n).instruction ∧ Segment listing (p₁ + 1) first.code p₂ ∧
      listing[p₂]? = some (Emitted.store u).instruction ∧
      listing[p₂ + 1]? = some (jump (n + 1)).instruction ∧
      listing[p₂ + 2]? = some (landing n).instruction ∧ Segment listing (p₂ + 3) second.code p₃ ∧
      listing[p₃]? = some (Emitted.store u).instruction ∧
      listing[p₃ + 1]? = some (landing (n + 1)).instruction ∧ stop = p₃ + 2 := by
  simp only [Action.code, segment_append, Segment] at h
  obtain ⟨p₃, ⟨_, ⟨p₂, ⟨_, ⟨p₁, hguard, hunless, rfl⟩, hfirst⟩, hstore, hjump, hland, rfl⟩, hsecond⟩,
    hstore', hend, rfl⟩ := h
  exact ⟨p₁, p₂, p₃, hguard, hunless, hfirst, hstore, hjump, hland, hsecond, hstore', hend, rfl⟩

theorem Action.segment_branch {test : Term} {body alternative : Action}
    (h : Segment listing pc ((Action.branch test body alternative).code n) stop) :
    ∃ p₁ p₂ p₃, Segment listing pc test.code p₁ ∧
      listing[p₁]? = some (jumpUnless n).instruction ∧
      Segment listing (p₁ + 1) (body.code (n + 1)) p₂ ∧
      listing[p₂]? = some (jump (n + 1 + body.labels)).instruction ∧
      listing[p₂ + 1]? = some (landing n).instruction ∧
      Segment listing (p₂ + 2) (alternative.code (n + 2 + body.labels)) p₃ ∧
      listing[p₃]? = some (landing (n + 1 + body.labels)).instruction ∧ stop = p₃ + 1 := by
  simp only [Action.code, segment_append, Segment] at h
  obtain ⟨p₃, ⟨_, ⟨p₂, ⟨_, ⟨p₁, htest, hunless, rfl⟩, hbody⟩, hjump, hland, rfl⟩, halternative⟩, hend,
    rfl⟩ := h
  exact ⟨p₁, p₂, p₃, htest, hunless, hbody, hjump, hland, halternative, hend, rfl⟩

theorem Action.segment_loop {test : Term} {body : Action}
    (h : Segment listing pc ((Action.loop test body).code n) stop) :
    ∃ p₁ p₂, listing[pc]? = some (landing n).instruction ∧
      Segment listing (pc + 1) test.code p₁ ∧
      listing[p₁]? = some (jumpUnless (n + 1)).instruction ∧
      Segment listing (p₁ + 1) (body.code (n + 2)) p₂ ∧
      listing[p₂]? = some (jump n).instruction ∧
      listing[p₂ + 1]? = some (landing (n + 1)).instruction ∧ stop = p₂ + 2 := by
  simp only [Action.code, segment_append, Segment] at h
  obtain ⟨p₂, ⟨_, ⟨p₁, ⟨_, ⟨hhead, rfl⟩, htest⟩, hunless, rfl⟩, hbody⟩, hjump, hend, rfl⟩ := h
  exact ⟨p₁, p₂, hhead, htest, hunless, hbody, hjump, hend, rfl⟩

theorem Action.segment_rounds {test step : Term} {u : Use} {body : Action}
    (h : Segment listing pc ((Action.rounds test u step body).code n) stop) :
    ∃ p₁ p₂ p₃, listing[pc]? = some (jump n).instruction ∧
      listing[pc + 1]? = some (landing (n + 1)).instruction ∧
      Segment listing (pc + 2) test.code p₁ ∧ Segment listing p₁ step.code p₂ ∧
      listing[p₂]? = some (Emitted.store u).instruction ∧
      listing[p₂ + 1]? = some (jumpUnless (n + 2)).instruction ∧
      Segment listing (p₂ + 2) (body.code (n + 3)) p₃ ∧
      listing[p₃]? = some (landing n).instruction ∧
      listing[p₃ + 1]? = some (jump (n + 1)).instruction ∧
      listing[p₃ + 2]? = some (landing (n + 2)).instruction ∧ stop = p₃ + 3 := by
  simp only [Action.code, segment_append, Segment] at h
  obtain ⟨p₃, ⟨_, ⟨p₂, ⟨p₁, ⟨_, ⟨hstart, hhead, rfl⟩, htest⟩, hstep⟩, hstore, hunless, rfl⟩, hbody⟩,
    hland, hjump, hend, rfl⟩ := h
  exact ⟨p₁, p₂, p₃, hstart, hhead, htest, hstep, hstore, hunless, hbody, hland, hjump, hend, rfl⟩

theorem Action.segment_switch {subject : Term} {cases : Cases} {fallback : Action}
    (h : Segment listing pc ((Action.switch subject cases fallback).code n) stop) :
    ∃ p₁ p₂, Segment listing pc (cases.code subject n (n + 1)) p₁ ∧
      Segment listing p₁ (fallback.code (n + 1 + cases.labels)) p₂ ∧
      listing[p₂]? = some (landing n).instruction ∧ stop = p₂ + 1 := by
  simp only [Action.code, segment_append, Segment] at h
  obtain ⟨p₂, ⟨p₁, hcases, hfallback⟩, hend, rfl⟩ := h
  exact ⟨p₁, p₂, hcases, hfallback, hend, rfl⟩

theorem Cases.segment_case {subject label : Term} {body : Action} {rest : Cases} {exit : Nat}
    (h : Segment listing pc ((Cases.case label body rest).code subject exit n) stop) :
    ∃ p₁ p₂ p₃, Segment listing pc subject.code p₁ ∧ Segment listing p₁ label.code p₂ ∧
      listing[p₂]? = some (plain (.compare .equ)).instruction ∧
      listing[p₂ + 1]? = some (jumpUnless n).instruction ∧
      Segment listing (p₂ + 2) (body.code (n + 1)) p₃ ∧
      listing[p₃]? = some (jump exit).instruction ∧
      listing[p₃ + 1]? = some (landing n).instruction ∧
      Segment listing (p₃ + 2) (rest.code subject exit (n + 1 + body.labels)) stop := by
  simp only [Cases.code, segment_append, Segment] at h
  obtain ⟨_, ⟨p₃, ⟨_, ⟨p₂, ⟨p₁, hsubject, hlabel⟩, hcompare, hunless, rfl⟩, hbody⟩, hjump, hland,
    rfl⟩, hrest⟩ := h
  exact ⟨p₁, p₂, p₃, hsubject, hlabel, hcompare, hunless, hbody, hjump, hland, hrest⟩

theorem Body.segment_nested {label : String} {params : List (String × Ty)} {frame : Scope}
    {body rest : Body}
    (h : Segment listing pc ((Body.nested label params frame body rest).code n) stop) :
    ∃ p₁, listing[pc]? = some (jump n).instruction ∧
      listing[p₁]? = some (landing n).instruction ∧
      Segment listing (p₁ + 1) (rest.code (n + 1 + body.labels)) stop := by
  simp only [Body.code, segment_append, Segment] at h
  obtain ⟨_, ⟨p₁, ⟨_, ⟨hjump, rfl⟩, haround⟩, hland, rfl⟩, hrest⟩ := h
  exact ⟨p₁, hjump, hland, hrest⟩

end

/-! ## The machine does what the statements mean -/

section

variable {listing : List Instruction} (hlabels : Resolvable listing)

include hlabels

theorem jump_steps {pc target n : Nat} {stack : List Int} {m : Memory}
    (hpc : listing[pc]? = some (jump n).instruction)
    (htarget : listing[target]? = some (landing n).instruction) :
    Steps listing ⟨pc, stack, m⟩ ⟨target, stack, m⟩ :=
  .single (step?_jump hlabels hpc htarget)

theorem jumpUnless_steps {pc target n : Nat} {stack : List Int} {m : Memory}
    (hpc : listing[pc]? = some (jumpUnless n).instruction)
    (htarget : listing[target]? = some (landing n).instruction) :
    Steps listing ⟨pc, 0 :: stack, m⟩ ⟨target, stack, m⟩ :=
  .single (by rw [step?_jumpUnless hlabels hpc htarget, if_pos rfl])

theorem fallThrough_steps {pc target n : Nat} {value : Int} {stack : List Int} {m : Memory}
    (hpc : listing[pc]? = some (jumpUnless n).instruction)
    (htarget : listing[target]? = some (landing n).instruction) (hvalue : value ≠ 0) :
    Steps listing ⟨pc, value :: stack, m⟩ ⟨pc + 1, stack, m⟩ :=
  .single (by rw [step?_jumpUnless hlabels hpc htarget, if_neg hvalue])

/-- The code of a case up to the decision whether its body is run. -/
theorem case_steps {subject label : Term} {a b : Int} {m : Memory} {pc p₁ p₂ target n : Nat}
    (hsubject : Segment listing pc subject.code p₁) (hlabel : Segment listing p₁ label.code p₂)
    (hcompare : listing[p₂]? = some (plain (.compare .equ)).instruction)
    (hunless : listing[p₂ + 1]? = some (jumpUnless n).instruction)
    (htarget : listing[target]? = some (landing n).instruction)
    (ha : subject.eval? m = some a) (hb : label.eval? m = some b) :
    Steps listing ⟨pc, [], m⟩ ⟨if a = b then p₂ + 2 else target, [], m⟩ := by
  have hequ : Segment listing p₂ [plain (.compare .equ)] (p₂ + 1) := ⟨hcompare, rfl⟩
  have hstep : Steps listing ⟨p₂, [b, a], m⟩ ⟨p₂ + 1, [if a = b then 1 else 0], m⟩ :=
    hequ.steps rfl rfl
  refine (Term.steps hsubject ha).trans ((Term.steps hlabel hb).trans (hstep.trans ?_))
  by_cases heq : a = b
  · rw [if_pos heq, if_pos heq]
    exact fallThrough_steps hlabels hunless htarget (by decide)
  · rw [if_neg heq, if_neg heq]
    exact jumpUnless_steps hlabels hunless htarget

theorem Cases.steps_of_select_some {subject : Term} {body : Action} {m m' : Memory}
    {exit target : Nat} (htarget : listing[target]? = some (landing exit).instruction)
    (hbody : ∀ {n pc stop : Nat}, Segment listing pc (body.code n) stop →
      Steps listing ⟨pc, [], m⟩ ⟨stop, [], m'⟩) :
    ∀ {cases : Cases} {n pc stop : Nat}, cases.select? m subject = some (some body) →
      Segment listing pc (cases.code subject exit n) stop →
      Steps listing ⟨pc, [], m⟩ ⟨target, [], m'⟩
  | .none, _, _, _, hselect, _ => by simp [Cases.select?] at hselect
  | .case label first rest, n, pc, stop, hselect, hcode => by
      obtain ⟨p₁, p₂, p₃, hsubject, hlabel, hcompare, hunless, hfirst, hjump, hland, hrest⟩ :=
        Cases.segment_case hcode
      simp only [Cases.select?, Option.bind_eq_bind, Option.bind_eq_some_iff] at hselect
      obtain ⟨a, ha, b, hb, hselect⟩ := hselect
      refine (case_steps hlabels hsubject hlabel hcompare hunless hland ha hb).trans ?_
      split at hselect
      next heq =>
        cases hselect
        rw [if_pos heq]
        exact (hbody hfirst).trans (jump_steps hlabels hjump htarget)
      next hne =>
        rw [if_neg hne]
        exact (landing_steps hland).trans
          (Cases.steps_of_select_some htarget hbody hselect hrest)

theorem Cases.steps_of_select_none {subject : Term} {m : Memory} {exit : Nat} :
    ∀ {cases : Cases} {n pc stop : Nat}, cases.select? m subject = some .none →
      Segment listing pc (cases.code subject exit n) stop →
      Steps listing ⟨pc, [], m⟩ ⟨stop, [], m⟩
  | .none, _, _, _, _, hcode => by
      cases hcode
      exact .refl
  | .case label first rest, n, pc, stop, hselect, hcode => by
      obtain ⟨p₁, p₂, p₃, hsubject, hlabel, hcompare, hunless, hfirst, hjump, hland, hrest⟩ :=
        Cases.segment_case hcode
      simp only [Cases.select?, Option.bind_eq_bind, Option.bind_eq_some_iff] at hselect
      obtain ⟨a, ha, b, hb, hselect⟩ := hselect
      refine (case_steps hlabels hsubject hlabel hcompare hunless hland ha hb).trans ?_
      split at hselect
      next heq => cases hselect
      next hne =>
        rw [if_neg hne]
        exact (landing_steps hland).trans (Cases.steps_of_select_none hselect hrest)

theorem Action.Runs.steps {a : Action} {m m' : Memory} (h : a.Runs m m') :
    ∀ {n pc stop : Nat}, Segment listing pc (a.code n) stop →
      Steps listing ⟨pc, [], m⟩ ⟨stop, [], m'⟩ := by
  induction h with
  | skip m =>
    intro n pc stop hcode
    cases hcode
    exact .refl
  | store hvalue =>
    intro n pc stop hcode
    simp only [Action.code, segment_append, Segment] at hcode
    obtain ⟨p₁, hterm, hstore, rfl⟩ := hcode
    exact (Term.steps hterm hvalue).trans (store_steps hstore)
  | chooseFirst hguard htrue hvalue =>
    intro n pc stop hcode
    obtain ⟨p₁, p₂, p₃, hterm, hunless, hfirst, hstore, hjump, hland, hsecond, hstore', hend, rfl⟩ :=
      Action.segment_choose hcode
    exact (Term.steps hterm hguard).trans <|
      (fallThrough_steps hlabels hunless hland htrue).trans <|
      (Term.steps hfirst hvalue).trans <| (store_steps hstore).trans <|
      (jump_steps hlabels hjump hend).trans (landing_steps hend)
  | chooseSecond hguard hvalue =>
    intro n pc stop hcode
    obtain ⟨p₁, p₂, p₃, hterm, hunless, hfirst, hstore, hjump, hland, hsecond, hstore', hend, rfl⟩ :=
      Action.segment_choose hcode
    exact (Term.steps hterm hguard).trans <|
      (jumpUnless_steps hlabels hunless hland).trans <| (landing_steps hland).trans <|
      (Term.steps hsecond hvalue).trans <| (store_steps hstore').trans (landing_steps hend)
  | @read u m m' v hread =>
    intro n pc stop hcode
    obtain ⟨hpc, hstore, rfl⟩ := hcode
    have hsegment : Segment listing pc [plain .read] (pc + 1) := ⟨hpc, rfl⟩
    have hrun : runAll? [plain .read] [] m = some ([v], m') := by
      simp [runAll?, Emitted.op, plain, Instruction.plain, Op.run?, hread]
    exact (hsegment.steps rfl hrun).trans (store_steps hstore)
  | @write value m v hvalue =>
    intro n pc stop hcode
    simp only [Action.code, segment_append] at hcode
    obtain ⟨p₁, hterm, hwrite⟩ := hcode
    have hrun : runAll? [plain .write] [v] m = some ([], m.write v) := rfl
    exact (Term.steps hterm hvalue).trans (hwrite.steps rfl hrun)
  | seq _ _ ih₁ ih₂ =>
    intro n pc stop hcode
    simp only [Action.code, segment_append] at hcode
    obtain ⟨p₁, hfirst, hsecond⟩ := hcode
    exact (ih₁ hfirst).trans (ih₂ hsecond)
  | branchTrue htest htrue _ ih =>
    intro n pc stop hcode
    obtain ⟨p₁, p₂, p₃, hterm, hunless, hbody, hjump, hland, halt, hend, rfl⟩ :=
      Action.segment_branch hcode
    exact (Term.steps hterm htest).trans <|
      (fallThrough_steps hlabels hunless hland htrue).trans <| (ih hbody).trans <|
      (jump_steps hlabels hjump hend).trans (landing_steps hend)
  | branchFalse htest _ ih =>
    intro n pc stop hcode
    obtain ⟨p₁, p₂, p₃, hterm, hunless, hbody, hjump, hland, halt, hend, rfl⟩ :=
      Action.segment_branch hcode
    exact (Term.steps hterm htest).trans <|
      (jumpUnless_steps hlabels hunless hland).trans <| (landing_steps hland).trans <|
      (ih halt).trans (landing_steps hend)
  | loopDone htest =>
    intro n pc stop hcode
    obtain ⟨p₁, p₂, hhead, hterm, hunless, hbody, hjump, hend, rfl⟩ := Action.segment_loop hcode
    exact (landing_steps hhead).trans <| (Term.steps hterm htest).trans <|
      (jumpUnless_steps hlabels hunless hend).trans (landing_steps hend)
  | loopAgain htest htrue _ _ ihBody ihRest =>
    intro n pc stop hcode
    have hloop := ihRest hcode
    obtain ⟨p₁, p₂, hhead, hterm, hunless, hbody, hjump, hend, rfl⟩ := Action.segment_loop hcode
    exact (landing_steps hhead).trans <| (Term.steps hterm htest).trans <|
      (fallThrough_steps hlabels hunless hend htrue).trans <| (ihBody hbody).trans <|
      (jump_steps hlabels hjump hhead).trans hloop
  | roundsDone htest hstep =>
    intro n pc stop hcode
    obtain ⟨p₁, p₂, p₃, hstart, hhead, hterm, hvalue, hstore, hunless, hbody, hland, hjump, hend,
      rfl⟩ := Action.segment_rounds hcode
    exact (jump_steps hlabels hstart hland).trans <| (landing_steps hland).trans <|
      (jump_steps hlabels hjump hhead).trans <| (landing_steps hhead).trans <|
      (Term.steps hterm htest).trans <| (Term.steps hvalue hstep).trans <|
      (store_steps hstore).trans <| (jumpUnless_steps hlabels hunless hend).trans
      (landing_steps hend)
  | @roundsAgain _ _ _ _ _ m₁ m₂ _ _ htest htrue hstep _ _ ihBody ihRest =>
    intro n pc stop hcode
    have hrounds := ihRest hcode
    have hlt : pc < stop := by
      rw [hcode.stop_eq]
      simp [Action.code]
    obtain ⟨p₁, p₂, p₃, hstart, hhead, hterm, hvalue, hstore, hunless, hbody, hland, hjump, hend,
      rfl⟩ := Action.segment_rounds hcode
    -- The rounds that are left start with the same jump as the first one.
    have hrest : Steps listing ⟨p₃, [], m₁⟩ ⟨p₃ + 3, [], m₂⟩ :=
      hrounds.of_step (step?_jump hlabels hstart hland) (by simp; omega)
    exact (jump_steps hlabels hstart hland).trans <| (landing_steps hland).trans <|
      (jump_steps hlabels hjump hhead).trans <| (landing_steps hhead).trans <|
      (Term.steps hterm htest).trans <| (Term.steps hvalue hstep).trans <|
      (store_steps hstore).trans <| (fallThrough_steps hlabels hunless hend htrue).trans <|
      (ihBody hbody).trans hrest
  | switchCase hselect _ ih =>
    intro n pc stop hcode
    obtain ⟨p₁, p₂, hcases, hfallback, hend, rfl⟩ := Action.segment_switch hcode
    exact (Cases.steps_of_select_some hlabels hend ih hselect hcases).trans (landing_steps hend)
  | switchDefault hselect _ ih =>
    intro n pc stop hcode
    obtain ⟨p₁, p₂, hcases, hfallback, hend, rfl⟩ := Action.segment_switch hcode
    exact (Cases.steps_of_select_none hlabels hselect hcases).trans <|
      (ih hfallback).trans (landing_steps hend)

end

/-! ## The statements mean what the machine does -/

section

variable {listing : List Instruction} {final : Config} (hfinal : final.AtLeave listing)

include hfinal

theorem store_arrives {k pc : Nat} {u : Use} {value : Int} {stack : List Int} {m : Memory}
    (hpc : listing[pc]? = some (Emitted.store u).instruction)
    (h : Arrives listing final k ⟨pc, value :: stack, m⟩) :
    Arrives listing final k ⟨pc + 1, stack, m.set u.cell value⟩ := by
  have hsegment : Segment listing pc [Emitted.store u] (pc + 1) := ⟨hpc, rfl⟩
  obtain ⟨stack', m', hrun, hrest⟩ := hsegment.arrives hfinal (by simp) h
  rw [runAll?_store] at hrun
  cases hrun
  exact hrest

theorem landing_arrives {k pc n : Nat} {stack : List Int} {m : Memory}
    (hpc : listing[pc]? = some (landing n).instruction)
    (h : Arrives listing final k ⟨pc, stack, m⟩) :
    Arrives listing final k ⟨pc + 1, stack, m⟩ := by
  have hsegment : Segment listing pc [landing n] (pc + 1) := ⟨hpc, rfl⟩
  obtain ⟨stack', m', hrun, hrest⟩ := hsegment.arrives hfinal rfl h
  cases hrun
  exact hrest

end

/-- If the machine arrives at the end of the procedure from the start of the code of the action, then
the action comes to an end, and the machine arrives from the end of its code with the same memory. -/
def Action.Recovered (listing : List Instruction) (final : Config) (a : Action) : Prop :=
  ∀ {n pc stop k : Nat} {m : Memory}, Segment listing pc (a.code n) stop →
    Arrives listing final k ⟨pc, [], m⟩ →
      ∃ m', a.Runs m m' ∧ Arrives listing final k ⟨stop, [], m'⟩

/-- The same for the cases of a switch.  They are left through a label if one of them matched, and at
the end of their code if none did. -/
def Cases.Recovered (listing : List Instruction) (final : Config) (cases : Cases) : Prop :=
  ∀ {subject : Term} {exit target n pc stop k : Nat} {m : Memory},
    listing[target]? = some (landing exit).instruction →
    Segment listing pc (cases.code subject exit n) stop → Arrives listing final k ⟨pc, [], m⟩ →
      (∃ body m', cases.select? m subject = some (some body) ∧ body.Runs m m' ∧
        Arrives listing final k ⟨target, [], m'⟩) ∨
      cases.select? m subject = some .none ∧ Arrives listing final k ⟨stop, [], m⟩

section

variable {listing : List Instruction} (hlabels : Resolvable listing) {final : Config}
  (hfinal : final.AtLeave listing)

include hlabels hfinal

theorem Action.recovered_choose (u : Use) (guard first second : Term) :
    (Action.choose u guard first second).Recovered listing final := by
  intro n pc stop k m hcode harrives
  obtain ⟨p₁, p₂, p₃, hterm, hunless, hfirst, hstore, hjump, hland, hsecond, hstore', hend, rfl⟩ :=
    Action.segment_choose hcode
  obtain ⟨g, hguard, h₁⟩ := Term.arrives hfinal hterm harrives
  have h₂ := h₁.jumpUnless hlabels hfinal hunless hland
  by_cases hzero : g = 0
  · rw [if_pos hzero] at h₂
    obtain ⟨v, hvalue, h₃⟩ := Term.arrives hfinal hsecond (landing_arrives hfinal hland h₂)
    refine ⟨m.set u.cell v, .chooseSecond (hzero ▸ hguard) hvalue, ?_⟩
    exact landing_arrives hfinal hend (store_arrives hfinal hstore' h₃)
  · rw [if_neg hzero] at h₂
    obtain ⟨v, hvalue, h₃⟩ := Term.arrives hfinal hfirst h₂
    obtain ⟨j, hj, h₄⟩ := (store_arrives hfinal hstore h₃).jump hlabels hfinal hjump hend
    refine ⟨m.set u.cell v, .chooseFirst hguard hzero hvalue, ?_⟩
    exact (landing_arrives hfinal hend h₄).mono (Nat.le_of_lt hj)

theorem Action.recovered_branch {test : Term} {body alternative : Action}
    (hbody : body.Recovered listing final) (halternative : alternative.Recovered listing final) :
    (Action.branch test body alternative).Recovered listing final := by
  intro n pc stop k m hcode harrives
  obtain ⟨p₁, p₂, p₃, hterm, hunless, hfirst, hjump, hland, hsecond, hend, rfl⟩ :=
    Action.segment_branch hcode
  obtain ⟨t, htest, h₁⟩ := Term.arrives hfinal hterm harrives
  have h₂ := h₁.jumpUnless hlabels hfinal hunless hland
  by_cases hzero : t = 0
  · rw [if_pos hzero] at h₂
    obtain ⟨m', hruns, h₃⟩ := halternative hsecond (landing_arrives hfinal hland h₂)
    exact ⟨m', .branchFalse (hzero ▸ htest) hruns, landing_arrives hfinal hend h₃⟩
  · rw [if_neg hzero] at h₂
    obtain ⟨m', hruns, h₃⟩ := hbody hfirst h₂
    obtain ⟨j, hj, h₄⟩ := h₃.jump hlabels hfinal hjump hend
    exact ⟨m', .branchTrue htest hzero hruns, (landing_arrives hfinal hend h₄).mono (Nat.le_of_lt hj)⟩

theorem Action.recovered_loop {test : Term} {body : Action}
    (hbody : body.Recovered listing final) : (Action.loop test body).Recovered listing final := by
  intro n pc stop k m hcode
  obtain ⟨p₁, p₂, hhead, hterm, hunless, hround, hjump, hend, rfl⟩ := Action.segment_loop hcode
  -- A round takes steps, so fewer are left when the machine is back at the head of the loop.
  induction k using Nat.strongRecOn generalizing m with
  | ind k ih =>
    intro harrives
    obtain ⟨t, htest, h₁⟩ := Term.arrives hfinal hterm (landing_arrives hfinal hhead harrives)
    have h₂ := h₁.jumpUnless hlabels hfinal hunless hend
    by_cases hzero : t = 0
    · rw [if_pos hzero] at h₂
      exact ⟨m, .loopDone (hzero ▸ htest), landing_arrives hfinal hend h₂⟩
    · rw [if_neg hzero] at h₂
      obtain ⟨m₁, hruns, h₃⟩ := hbody hround h₂
      obtain ⟨j, hj, h₄⟩ := h₃.jump hlabels hfinal hjump hhead
      obtain ⟨m₂, hrest, h₅⟩ := ih j hj h₄
      exact ⟨m₂, .loopAgain htest hzero hruns hrest, h₅.mono (Nat.le_of_lt hj)⟩

theorem Action.recovered_rounds {test : Term} {u : Use} {step : Term} {body : Action}
    (hbody : body.Recovered listing final) :
    (Action.rounds test u step body).Recovered listing final := by
  intro n pc stop k m hcode harrives
  obtain ⟨p₁, p₂, p₃, hstart, hhead, hterm, hvalue, hstore, hunless, hround, hland, hjump, hend,
    rfl⟩ := Action.segment_rounds hcode
  obtain ⟨j, hj, h₀⟩ := harrives.jump hlabels hfinal hstart hland
  -- From here on all rounds are alike: each starts at the label in front of the jump to the test.
  have hrounds : ∀ {j m}, Arrives listing final j ⟨p₃, [], m⟩ →
      ∃ m', (Action.rounds test u step body).Runs m m' ∧
        Arrives listing final j ⟨p₃ + 3, [], m'⟩ := by
    intro j
    induction j using Nat.strongRecOn with
    | ind j ih =>
      intro m h
      obtain ⟨i, hi, h₁⟩ := (landing_arrives hfinal hland h).jump hlabels hfinal hjump hhead
      obtain ⟨t, htest, h₂⟩ := Term.arrives hfinal hterm (landing_arrives hfinal hhead h₁)
      obtain ⟨v, hstep, h₃⟩ := Term.arrives hfinal hvalue h₂
      have h₄ := (store_arrives hfinal hstore h₃).jumpUnless hlabels hfinal hunless hend
      by_cases hzero : t = 0
      · rw [if_pos hzero] at h₄
        exact ⟨m.set u.cell v, .roundsDone (hzero ▸ htest) hstep,
          (landing_arrives hfinal hend h₄).mono (Nat.le_of_lt hi)⟩
      · rw [if_neg hzero] at h₄
        obtain ⟨m₁, hruns, h₅⟩ := hbody hround h₄
        obtain ⟨m₂, hrest, h₆⟩ := ih i hi h₅
        exact ⟨m₂, .roundsAgain htest hzero hstep hruns hrest, h₆.mono (Nat.le_of_lt hi)⟩
  obtain ⟨m', hruns, h⟩ := hrounds h₀
  exact ⟨m', hruns, h.mono (Nat.le_of_lt hj)⟩

theorem Cases.recovered_case {label : Term} {body : Action} {rest : Cases}
    (hbody : body.Recovered listing final) (hrest : rest.Recovered listing final) :
    (Cases.case label body rest).Recovered listing final := by
  intro subject exit target n pc stop k m htarget hcode harrives
  obtain ⟨p₁, p₂, p₃, hsubject, hlabel, hcompare, hunless, hfirst, hjump, hland, hothers⟩ :=
    Cases.segment_case hcode
  obtain ⟨a, ha, h₁⟩ := Term.arrives hfinal hsubject harrives
  obtain ⟨b, hb, h₂⟩ := Term.arrives hfinal hlabel h₁
  have hequ : Segment listing p₂ [plain (.compare .equ)] (p₂ + 1) := ⟨hcompare, rfl⟩
  obtain ⟨stack', m', hrun, h₃⟩ := hequ.arrives hfinal rfl h₂
  cases hrun
  have h₄ := h₃.jumpUnless hlabels hfinal hunless hland
  have hselect : (Cases.case label body rest).select? m subject =
      if a = b then some (some body) else rest.select? m subject := by
    simp [Cases.select?, ha, hb]
  rw [hselect]
  by_cases heq : a = b
  · have hone : Comparison.equ.eval a b ≠ 0 := by simp [Comparison.eval, heq]
    rw [if_neg hone] at h₄
    obtain ⟨m', hruns, h₅⟩ := hbody hfirst h₄
    obtain ⟨j, hj, h₆⟩ := h₅.jump hlabels hfinal hjump htarget
    rw [if_pos heq]
    exact .inl ⟨body, m', rfl, hruns, h₆.mono (Nat.le_of_lt hj)⟩
  · have hzero : Comparison.equ.eval a b = 0 := by simp [Comparison.eval, heq]
    rw [if_pos hzero] at h₄
    rw [if_neg heq]
    exact hrest htarget hothers (landing_arrives hfinal hland h₄)

omit hlabels in
theorem Action.recovered_switch {subject : Term} {cases : Cases} {fallback : Action}
    (hcases : cases.Recovered listing final) (hfallback : fallback.Recovered listing final) :
    (Action.switch subject cases fallback).Recovered listing final := by
  intro n pc stop k m hcode harrives
  obtain ⟨p₁, p₂, hchain, hlast, hend, rfl⟩ := Action.segment_switch hcode
  rcases hcases hend hchain harrives with ⟨body, m', hselect, hruns, h₁⟩ | ⟨hselect, h₁⟩
  · exact ⟨m', .switchCase hselect hruns, landing_arrives hfinal hend h₁⟩
  · obtain ⟨m', hruns, h₂⟩ := hfallback hlast h₁
    exact ⟨m', .switchDefault hselect hruns, landing_arrives hfinal hend h₂⟩

omit hlabels in
theorem Action.recovered_read (u : Use) : (Action.read u).Recovered listing final := by
  intro n pc stop k m hcode harrives
  obtain ⟨hpc, hstore, rfl⟩ := hcode
  have hsegment : Segment listing pc [plain .read] (pc + 1) := ⟨hpc, rfl⟩
  obtain ⟨stack', m₁, hrun, h₁⟩ := hsegment.arrives hfinal rfl harrives
  have hrun : (m.read?.map fun pair => ([pair.1], pair.2)).bind some = some (stack', m₁) := hrun
  rw [Option.bind_fun_some, Option.map_eq_some_iff] at hrun
  obtain ⟨⟨v, m'⟩, hread, heq⟩ := hrun
  cases heq
  exact ⟨_, .read hread, store_arrives hfinal hstore h₁⟩

omit hlabels in
theorem Action.recovered_write (value : Term) : (Action.write value).Recovered listing final := by
  intro n pc stop k m hcode harrives
  simp only [Action.code, segment_append] at hcode
  obtain ⟨p₁, hterm, hwrite⟩ := hcode
  obtain ⟨v, hvalue, h₁⟩ := Term.arrives hfinal hterm harrives
  obtain ⟨stack', m', hrun, h₂⟩ := hwrite.arrives hfinal rfl h₁
  cases hrun
  exact ⟨m.write v, .write hvalue, h₂⟩

omit hlabels in
theorem Action.recovered_store (kind : SymbolKind) (u : Use) (value : Term) :
    (Action.store kind u value).Recovered listing final := by
  intro n pc stop k m hcode harrives
  simp only [Action.code, segment_append, Segment] at hcode
  obtain ⟨p₁, hterm, hstore, rfl⟩ := hcode
  obtain ⟨v, hvalue, h₁⟩ := Term.arrives hfinal hterm harrives
  exact ⟨m.set u.cell v, .store hvalue, store_arrives hfinal hstore h₁⟩

omit hlabels hfinal in
theorem Action.recovered_seq {first second : Action} (hfirst : first.Recovered listing final)
    (hsecond : second.Recovered listing final) :
    (Action.seq first second).Recovered listing final := by
  intro n pc stop k m hcode harrives
  simp only [Action.code, segment_append] at hcode
  obtain ⟨p₁, hcode₁, hcode₂⟩ := hcode
  obtain ⟨m₁, hruns₁, h₁⟩ := hfirst hcode₁ harrives
  obtain ⟨m₂, hruns₂, h₂⟩ := hsecond hcode₂ h₁
  exact ⟨m₂, .seq hruns₁ hruns₂, h₂⟩

mutual

theorem Action.recovered : ∀ (a : Action), a.callFree = true → a.Recovered listing final
  | .skip, _ => fun hcode harrives => ⟨_, .skip _, hcode ▸ harrives⟩
  | .store kind u value, _ => Action.recovered_store hfinal kind u value
  | .choose u guard first second, _ => Action.recovered_choose hlabels hfinal u guard first second
  | .read u, _ => Action.recovered_read hfinal u
  | .write value, _ => Action.recovered_write hfinal value
  | .seq first second, hfree =>
      have ⟨hfirst, hsecond⟩ := Bool.and_eq_true_iff.mp hfree
      Action.recovered_seq (Action.recovered first hfirst) (Action.recovered second hsecond)
  | .branch _ body alternative, hfree =>
      have ⟨hbody, halternative⟩ := Bool.and_eq_true_iff.mp hfree
      Action.recovered_branch hlabels hfinal (Action.recovered body hbody)
        (Action.recovered alternative halternative)
  | .loop _ body, hfree => Action.recovered_loop hlabels hfinal (Action.recovered body hfree)
  | .rounds _ _ _ body, hfree =>
      Action.recovered_rounds hlabels hfinal (Action.recovered body hfree)
  | .switch _ cases fallback, hfree =>
      have ⟨hcases, hfallback⟩ := Bool.and_eq_true_iff.mp hfree
      Action.recovered_switch hfinal (Cases.recovered cases hcases)
        (Action.recovered fallback hfallback)

theorem Cases.recovered : ∀ (cases : Cases), cases.callFree = true → cases.Recovered listing final
  | .none, _ => fun _ hcode harrives => .inr ⟨rfl, hcode ▸ harrives⟩
  | .case _ body rest, hfree =>
      have ⟨hbody, hrest⟩ := Bool.and_eq_true_iff.mp hfree
      Cases.recovered_case hlabels hfinal (Action.recovered body hbody) (Cases.recovered rest hrest)

end

/-! ## Procedures -/

omit hfinal in
theorem Body.Runs.steps : ∀ {body : Body} {n pc stop : Nat} {m m' : Memory}, body.Runs m m' →
    Segment listing pc (body.code n) stop → Steps listing ⟨pc, [], m⟩ ⟨stop, [], m'⟩
  | .done, _, _, _, _, _, hruns, hcode => by
      cases hruns
      cases hcode
      exact .refl
  | .action a rest, _, _, _, _, _, hruns, hcode => by
      obtain ⟨m₁, hfirst, hrest⟩ := hruns
      obtain ⟨p₁, hcode₁, hcode₂⟩ := segment_append.mp hcode
      exact (hfirst.steps hlabels hcode₁).trans (Body.Runs.steps hrest hcode₂)
  | .nested label params frame body rest, _, _, _, _, _, hruns, hcode => by
      obtain ⟨p₁, hjump, hland, hcode⟩ := Body.segment_nested hcode
      have hruns : rest.Runs _ _ := hruns
      exact (jump_steps hlabels hjump hland).trans <| (landing_steps hland).trans
        (Body.Runs.steps hruns hcode)

theorem Body.recovered : ∀ {body : Body} {n pc stop k : Nat} {m : Memory},
    body.callFree = true →
    Segment listing pc (body.code n) stop → Arrives listing final k ⟨pc, [], m⟩ →
      ∃ m', body.Runs m m' ∧ Arrives listing final k ⟨stop, [], m'⟩
  | .done, _, _, _, _, m, _, hcode, harrives => ⟨m, rfl, hcode ▸ harrives⟩
  | .action a rest, _, _, _, _, _, hfree, hcode, harrives => by
      obtain ⟨hfirst, hrest⟩ := Bool.and_eq_true_iff.mp hfree
      obtain ⟨p₁, hcode₁, hcode₂⟩ := segment_append.mp hcode
      obtain ⟨m₁, hruns₁, h₁⟩ := a.recovered hlabels hfinal hfirst hcode₁ harrives
      obtain ⟨m₂, hruns₂, h₂⟩ := Body.recovered hrest hcode₂ h₁
      exact ⟨m₂, ⟨m₁, hruns₁, hruns₂⟩, h₂⟩
  | .nested label params frame body rest, _, _, _, _, _, hfree, hcode, harrives => by
      obtain ⟨p₁, hjump, hland, hcode⟩ := Body.segment_nested hcode
      obtain ⟨j, hj, h₁⟩ := harrives.jump hlabels hfinal hjump hland
      have hfree : rest.callFree = true := hfree
      obtain ⟨m', hruns, h₂⟩ := Body.recovered hfree hcode (landing_arrives hfinal hland h₁)
      exact ⟨m', hruns, h₂.mono (Nat.le_of_lt hj)⟩

end

theorem Config.AtLeave.step?_eq_none {listing : List Instruction} {s : Config}
    (h : s.AtLeave listing) : step? listing s = none := by
  obtain ⟨⟨label, op⟩, hi, hop⟩ := h
  cases hop
  simp [step?, hi, Op.run?]

/-- From behind the parameters of a procedure the machine gets to its end with just those memories
that its body leads to, and then with an empty operand stack. -/
theorem Body.steps_iff {listing : List Instruction} (hlabels : Resolvable listing) {body : Body}
    (hfree : body.callFree = true) {n pc leave : Nat} (hcode : Segment listing pc (body.code n) leave)
    (hleave : listing[leave]? = some (plain .leave).instruction) (m m' : Memory)
    (stack : List Int) :
    Steps listing ⟨pc, [], m⟩ ⟨leave, stack, m'⟩ ↔ stack = [] ∧ body.Runs m m' := by
  constructor
  · intro hsteps
    have hfinal : Config.AtLeave listing ⟨leave, stack, m'⟩ := ⟨_, hleave, rfl⟩
    obtain ⟨k, harrives⟩ := hsteps.arrives
    obtain ⟨m₁, hruns, hend⟩ := Body.recovered hlabels hfinal hfree hcode harrives
    have hend' : Config.AtLeave listing ⟨leave, [], m₁⟩ := ⟨_, hleave, rfl⟩
    cases hend with
    | here => exact ⟨rfl, hruns⟩
    | step hstep _ => simp [hend'.step?_eq_none] at hstep
  · rintro ⟨rfl, hruns⟩
    exact hruns.steps hlabels hcode

/-- The code of a routine in a listing: its body stands between its parameters and its end. -/
theorem Routine.StandsIn.segment {r : Routine} {e : Nat} {code : List Emitted}
    (h : r.StandsIn e code) (hmarked : ∀ x ∈ code, x.Marked) (front : List Instruction) :
    ∃ n leave, Segment (front ++ erase code) (front.length + e + 1 + r.params.length)
        (r.body.code n) (front.length + leave) ∧
      (erase code)[leave]? = some (plain .leave).instruction ∧
      owner (erase code) leave = some e := by
  obtain ⟨before, back, n, rfl, rfl⟩ := h
  have haround := segment_of_append (front ++ erase before) (erase back) (r.around (r.body.code n))
  have hlisting : front ++ erase before ++ erase (r.around (r.body.code n)) ++ erase back =
      front ++ erase (before ++ r.around (r.body.code n) ++ back) := by
    simp
  have hlength : (front ++ erase before).length = front.length + before.length := by
    simp [erase]
  rw [hlisting, hlength] at haround
  simp only [around, Segment, segment_append] at haround
  obtain ⟨-, leave, ⟨start, hprologue, hbody⟩, hleave, -, -⟩ := haround
  have hstart : start = front.length + before.length + 1 + r.params.length := by
    rw [hprologue.stop_eq]
    simp [prologue]
  have hstop : leave = front.length +
      (before.length + 1 + r.params.length + (r.body.code n).length) := by
    rw [hbody.stop_eq, hstart]
    omega
  subst hstart hstop
  refine ⟨n, _, hbody, ?_, r.owner_leave n before back hmarked⟩
  rw [List.getElem?_append_right (Nat.le_add_right _ _), Nat.add_sub_cancel_left] at hleave
  exact hleave

/-- The inner procedure of the sample has no call. -/
theorem sampleText_routine {p : Program} (hparse : parse sampleText "sample" = .ok p) :
    ∃ (e : Nat) (r : Routine), p.code[e]? = some r.entry ∧ r.label = "f$g" ∧
      r.body.callFree = true := by
  have heval : ((parse sampleText "sample").toOption.any fun p => p.code.any fun x =>
      x.routine?.any fun r => r.label = "f$g" && r.body.callFree) = true := by
    decide +kernel
  simp only [hparse, Except.toOption, Option.any_some, List.any_eq_true, Option.any_eq_true,
    Bool.and_eq_true, decide_eq_true_eq] at heval
  obtain ⟨x, hx, r, hr, hlabel, hfree⟩ := heval
  obtain ⟨e, he⟩ := List.mem_iff_getElem?.mp hx
  exact ⟨e, r, (partsCode_standsIn hr he).entry, hlabel, hfree⟩

end SlotLang
