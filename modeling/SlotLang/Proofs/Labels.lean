import SlotLang.Proofs.Reading

/-!
# Labels and jumps

Lowering draws labels from a supply, jumps to them and lands them, and this module says that the
three fit together whatever faults there are on the way.  A phrase is judged in the light of the
labels that were drawn before it: `Lands known due x` says that the code of `x` lands the labels
`due`, and besides them every label that `x` draws itself, each of them once, and that it jumps only
to labels that are known or drawn by itself.  A phrase that draws a label and then lands it owes
nothing to the phrases around it.

Most phrases draw no label and have no jump at all, and so their code can be copied and taken apart
at will, as a switch does with the code of its subject.
-/

namespace SlotLang

open Lowering

/-- The label that an operation jumps to. -/
def Op.target? : Op → Option Label
  | .jump label | .jumpUnless label => some label
  | _ => none

/-- The operation neither jumps nor enters or leaves a procedure. -/
def Op.isStraight : Op → Bool
  | .jump _ | .jumpUnless _ | .enter _ | .leave | .ret => false
  | _ => true

theorem Op.target?_of_isStraight {op : Op} (h : op.isStraight = true) : op.target? = none := by
  cases op <;> simp_all [isStraight, target?]

/-- The label of a procedure: the names of the procedures around it, and a name or nothing. -/
def IsProcedureLabel (label : String) : Prop :=
  ∃ names name, label = ScopeStack.joinNames (names ++ [name]) ∧ (name = "" ∨ IsWord name)

/-- What an instruction may do with labels, if it can reach those with the given numbers. -/
inductive Instruction.Wired (reach : Nat → Prop) : Instruction → Prop where
  | straight {op : Op} (h : op.target? = none) : Wired reach (.plain op)
  | jump {op : Op} {n : Nat} (h : op.target? = some (.fresh n)) (hreach : reach n) :
      Wired reach (.plain op)
  | landing (n : Nat) : Wired reach (.landing (.fresh n))
  | enter {label : String} (h : IsProcedureLabel label) (size : Nat) :
      Wired reach (.labelled (.named label) (.enter size))

theorem Instruction.Wired.mono {reach reach' : Nat → Prop} {i : Instruction} (h : i.Wired reach)
    (himp : ∀ n, reach n → reach' n) : i.Wired reach' := by
  cases h with
  | straight h => exact .straight h
  | jump h hreach => exact .jump h (himp _ hreach)
  | landing n => exact .landing n
  | enter h size => exact .enter h size

/-- The number of instructions that carry the label with the number `n`. -/
def landed (n : Nat) (code : List Instruction) : Nat :=
  code.countP fun i => i.label = some (.fresh n)

@[simp] theorem landed_append (n : Nat) (first second : List Instruction) :
    landed n (first ++ second) = landed n first + landed n second :=
  List.countP_append

/-- Code without labels and jumps that stays in its procedure. -/
def StraightCode (code : List Instruction) : Prop :=
  ∀ i ∈ code, ∃ op : Op, i = .plain op ∧ op.isStraight = true

namespace StraightCode

theorem nil : StraightCode [] := by
  simp [StraightCode]

theorem plain {op : Op} (h : op.isStraight = true) : StraightCode [.plain op] := by
  intro i hi
  exact ⟨op, List.mem_singleton.mp hi, h⟩

theorem append {first second : List Instruction} (h₁ : StraightCode first)
    (h₂ : StraightCode second) : StraightCode (first ++ second) := by
  intro i hi
  rcases List.mem_append.mp hi with hi | hi
  · exact h₁ i hi
  · exact h₂ i hi

theorem landed {code : List Instruction} (h : StraightCode code) (n : Nat) :
    landed n code = 0 := by
  simp only [SlotLang.landed, List.countP_eq_zero]
  intro i hi
  obtain ⟨op, rfl, -⟩ := h i hi
  simp [Instruction.plain]

theorem wired {code : List Instruction} (h : StraightCode code) (reach : Nat → Prop) :
    ∀ i ∈ code, i.Wired reach := by
  intro i hi
  obtain ⟨op, rfl, hop⟩ := h i hi
  exact .straight (Op.target?_of_isStraight hop)

end StraightCode

/-! ## Phrases without labels -/

/-- A phrase that draws no label and has only straight code. -/
def Straight {α : Type} (x : Lowering α) : Prop :=
  ∀ env, (x env).env.nextLabel = env.nextLabel ∧ StraightCode (x env).code

namespace Straight

variable {α β : Type}

theorem pure (a : α) : Straight (Pure.pure a : Lowering α) := fun _ => ⟨rfl, .nil⟩

theorem bind {x : Lowering α} {f : α → Lowering β} (hx : Straight x) (hf : ∀ a, Straight (f a)) :
    Straight (x >>= f) := by
  intro env
  obtain ⟨hlabel₁, hcode₁⟩ := hx env
  obtain ⟨hlabel₂, hcode₂⟩ := hf (x env).value (x env).env
  exact ⟨hlabel₂.trans hlabel₁, hcode₁.append hcode₂⟩

theorem discard {x : Lowering α} (hx : Straight x) : Straight (Functor.discard x) :=
  hx.bind fun _ => .pure _

theorem env : Straight Lowering.env := fun _ => ⟨rfl, .nil⟩

theorem modifyEnv {f : Env → Env} (h : ∀ env, (f env).nextLabel = env.nextLabel) :
    Straight (Lowering.modifyEnv f) := fun env => ⟨h env, .nil⟩

theorem withScopes (f : ScopeStack → α × ScopeStack) : Straight (Lowering.withScopes f) :=
  fun _ => ⟨rfl, .nil⟩

theorem emit {op : Op} (h : op.isStraight = true) : Straight (Lowering.emit op) :=
  fun _ => ⟨rfl, .plain h⟩

theorem consume (token : Token) : Straight (Lowering.consume token) := fun _ => ⟨rfl, .nil⟩

theorem refuseBefore (next : Token) (fault : Fault) : Straight (Lowering.refuseBefore next fault) :=
  fun _ => ⟨rfl, .nil⟩

theorem refuse (fault : Fault) : Straight (Lowering.refuse fault) := fun _ => ⟨rfl, .nil⟩

theorem skip (production : String) (token : Token) : Straight (Lowering.skip production token) :=
  .bind (.refuseBefore _ _) fun _ => .consume _

theorem check (rule : Except Fault α) : Straight (Lowering.check rule) := by
  cases rule with
  | ok a => exact .pure ()
  | error fault => exact .refuse fault

theorem terminal (t : Terminal) : Straight t.lower := by
  cases t with
  | read token => exact .consume token
  | missing kind next => exact .refuseBefore _ _

theorem load (target : Resolved) : Straight (Lowering.load target) := by
  refine .bind .env fun env => .emit ?_
  unfold Resolved.loadOp
  split <;> rfl

theorem store (target : Resolved) : Straight (Lowering.store target) := by
  refine .bind .env fun env => .emit ?_
  unfold Resolved.storeOp
  split <;> rfl

theorem resolve (name : String) : Straight (Lowering.resolve name) := by
  refine .bind .env fun env => ?_
  dsimp only
  split
  · exact .bind (.refuse _) fun _ => .pure _
  · exact .pure _

end Straight

/-! ### Designators and expressions -/

theorem Index.lower_straight (i : Index) : Straight i.lower :=
  .bind (.consume _) fun _ => .bind (.terminal _) fun _ => .terminal _

theorem lowerIndices_straight (indices : List Index) : Straight (lowerIndices indices) := by
  induction indices with
  | nil => exact .pure ()
  | cons i indices ih => exact .bind i.lower_straight fun _ => ih

theorem lowerMemberRefs_straight (members : List MemberRef) :
    Straight (lowerMemberRefs members) := by
  induction members with
  | nil => exact .pure ()
  | cons m members ih =>
    exact .bind (.consume _) fun _ => .bind (.terminal _) fun _ =>
      .bind (lowerIndices_straight _) fun _ => ih

theorem Designator.lower_straight (d : Designator) : Straight d.lower :=
  .bind (.terminal _) fun _ => .bind (lowerIndices_straight _) fun _ =>
    .bind (lowerMemberRefs_straight _) fun _ => .pure _

theorem Designator.lowerTarget_straight (d : Designator) : Straight d.lowerTarget := by
  refine .bind d.lower_straight fun name => ?_
  cases name with
  | none => exact .pure none
  | some name => exact .resolve name

namespace Expr

theorem lowerNumber_straight (token : Token) : Straight (lowerNumber token) := by
  refine .bind (.consume _) fun _ => ?_
  cases Text.integer? token.value with
  | none =>
    exact .bind (.refuse _) fun _ => .bind (.emit rfl) fun _ => .pure _
  | some value => exact .bind (.emit rfl) fun _ => .pure _

theorem lowerDesignator_straight (d : Designator) : Straight (lowerDesignator d) := by
  refine .bind d.lowerTarget_straight fun found => ?_
  cases found with
  | none => exact .pure _
  | some target =>
    dsimp only
    cases Typing.loadable target with
    | ok ty => exact .bind (.load target) fun _ => .pure _
    | error fault => exact .bind (.refuse fault) fun _ => .pure _

theorem lowerRelational_straight {right : Lowering Ty} (h : Straight right) (left : Ty)
    (op : Token) : Straight (lowerRelational left op right) := by
  refine .bind (.consume _) fun _ => .bind h fun rightTy => ?_
  cases Typing.relational left rightTy with
  | ok ty => exact .bind (.emit rfl) fun _ => .pure _
  | error fault => exact .bind (.refuse fault) fun _ => .pure _

theorem lowerArithmetic_straight {right : Lowering Ty} (h : Straight right) (left : Ty)
    (op : Token) : Straight (lowerArithmetic left op right) :=
  .bind (.consume _) fun _ => .bind h fun _ => .bind (.check _) fun _ =>
    .bind (.emit rfl) fun _ => .pure _

theorem lower_straight (e : Expr) : Straight e.lower := by
  induction e with
  | missing next => exact .bind (.refuseBefore _ _) fun _ => .pure _
  | number token => exact lowerNumber_straight token
  | boolean token => exact .bind (.consume _) fun _ => .bind (.emit rfl) fun _ => .pure _
  | designator d => exact lowerDesignator_straight d
  | negation minus operand ih =>
    exact .bind (.consume _) fun _ => .bind ih fun _ => .bind (.check _) fun _ =>
      .bind (.emit rfl) fun _ => .bind (.emit rfl) fun _ => .bind (.emit rfl) fun _ => .pure _
  | grouping opening inner closing ih =>
    exact .bind (.consume _) fun _ => .bind ih fun _ => .bind (.terminal _) fun _ => .pure _
  | relational left op right ihLeft ihRight =>
    exact .bind ihLeft fun ty => lowerRelational_straight ihRight ty op
  | arithmetic left op right ihLeft ihRight =>
    exact .bind ihLeft fun ty => lowerArithmetic_straight ihRight ty op

end Expr

namespace Separated

variable {α β : Type} {f : α → Lowering β}

theorem lower_straight (h : ∀ a, Straight (f a)) (items : Separated α) :
    Straight (items.lower f) := by
  have hothers : ∀ others, Straight (lower.lowerOthers f others) := by
    intro others
    induction others with
    | nil => exact .pure _
    | cons item others ih =>
      exact .bind (.consume _) fun _ => .bind (h _) fun _ => .bind ih fun _ => .pure _
  exact .bind (h _) fun _ => .bind (hothers _) fun _ => .pure _

theorem lower?_straight (h : ∀ a, Straight (f a)) (items : Option (Separated α)) :
    Straight (lower? items f) := by
  cases items with
  | none => exact .pure _
  | some items => exact lower_straight h items

end Separated

/-! ### Declarations -/

open Aggregate

theorem ScalarSpec.lower_straight (s : ScalarSpec) : Straight s.lower := by
  cases s with
  | read token => exact .bind (.consume _) fun _ => .pure _
  | missing next => exact .bind (.refuseBefore _ _) fun _ => .pure _

theorem TypeSpec.lower_straight (spec : TypeSpec) : Straight spec.lower := by
  cases spec with
  | scalar s => exact .bind s.lower_straight fun _ => .pure _
  | struct keyword name => exact .bind (.consume _) fun _ => .bind (.terminal _) fun _ => .pure _

theorem lowerBounds_straight (indices : List Index) : Straight (lowerBounds indices) := by
  induction indices with
  | nil => exact .pure _
  | cons i indices ih =>
    refine .bind (.consume _) fun _ => .bind (.terminal _) fun _ => ?_
    have hrest : ∀ bound : List Nat, Straight (do
        i.closing.lower
        let bounds ← lowerBounds indices
        return bound ++ bounds) :=
      fun bound => .bind (.terminal _) fun _ => .bind ih fun _ => .pure _
    cases i.number with
    | missing kind next => exact .bind (.pure _) hrest
    | read token =>
      dsimp only
      cases Text.word? token.value with
      | none => exact .bind (.refuse _) fun _ => .bind (.pure _) hrest
      | some n => exact .bind (.pure _) hrest

theorem variableElements_straight (name : String) (ty : DeclaredTy) (bounds : List Nat) :
    Straight (variableElements name ty bounds) := by
  have hregister : Straight (registerArray ⟨name, ty.elementTy, bounds.length⟩) := by
    refine .bind .env fun env => ?_
    split
    · exact .bind (.refuse _) fun _ => .modifyEnv fun _ => rfl
    · exact .modifyEnv fun _ => rfl
  unfold variableElements
  split
  · exact .pure _
  · refine .bind hregister fun _ => ?_
    split
    · exact .pure _
    · exact .bind (.refuse _) fun _ => .pure _

theorem declareVariable_straight (name : String) (ty : DeclaredTy) (bounds : List Nat) :
    Straight (declareVariable name ty bounds) := by
  have hmembers : ∀ members, Straight (declareMembers members) :=
    fun _ => .modifyEnv fun _ => rfl
  refine .bind (variableElements_straight name ty bounds) fun found => ?_
  cases found with
  | none => exact .pure ()
  | some names =>
    cases ty with
    | scalar ty => exact hmembers _
    | struct structName =>
      refine .bind .env fun env => ?_
      split
      · exact .refuse _
      · split
        · exact .refuse _
        · exact hmembers _

theorem Declarator.lower_straight (ty : DeclaredTy) (d : Declarator) : Straight (d.lower ty) := by
  refine .bind (.terminal _) fun _ => .bind (lowerBounds_straight _) fun bounds => ?_
  split
  · exact declareVariable_straight _ ty bounds
  · exact .pure ()

theorem ConstEntry.lower_straight (entry : ConstEntry) : Straight entry.lower := by
  refine .bind entry.ty.lower_straight fun ty => .bind (.terminal _) fun _ => ?_
  split
  · exact .bind (.withScopes _) fun _ => .bind (.terminal _) fun _ =>
      .bind (Expr.lower_straight _) fun _ => .bind (.check _) fun _ => .store _
  · exact .pure ()

theorem addMembers_straight (d : StructDef) (name : String) (ty : DeclaredTy)
    (bounds : List Nat) : Straight (addMembers d name ty bounds) := by
  have hadd : ∀ width expand, Straight (addMembers.add d name bounds width expand) := by
    intro width expand
    unfold addMembers.add
    split
    · exact .bind (.refuse _) fun _ => .pure _
    · split
      · exact .bind (.refuse _) fun _ => .pure _
      · exact .pure _
  cases ty with
  | scalar ty => exact hadd _ _
  | struct structName =>
    refine .bind .env fun env => ?_
    split
    · exact .bind (.refuse _) fun _ => .pure _
    · exact hadd _ _

theorem lowerStructItems_straight (items : List StructItem) (d : StructDef) :
    Straight (lowerStructItems d items) := by
  induction items generalizing d with
  | nil => exact .pure d
  | cons item items ih =>
    cases item with
    | skipped token => exact .bind (.skip _ _) fun _ => ih d
    | member spec name bounds semicolon =>
      refine .bind spec.lower_straight fun ty => .bind (.terminal _) fun _ =>
        .bind (lowerBounds_straight _) fun bounds => .bind (.terminal _) fun _ => ?_
      split
      · exact .bind (addMembers_straight d _ ty bounds) ih
      · exact .bind (.pure d) ih

theorem lowerStructDef_straight (keyword : Token) (name opening : Terminal)
    (items : List StructItem) (closing semicolon : Terminal) :
    Straight (lowerStructDef keyword name opening items closing semicolon) := by
  have hrest : Straight (do
      opening.lower
      let d ← lowerStructItems (.new name.valueD) items
      closing.lower
      semicolon.lower
      modifyEnv fun env => { env with structs := env.structs.define d }) :=
    .bind (.terminal _) fun _ => .bind (lowerStructItems_straight items _) fun _ =>
      .bind (.terminal _) fun _ => .bind (.terminal _) fun _ => .modifyEnv fun _ => rfl
  refine .bind (.consume _) fun _ => .bind (.terminal _) fun _ => .bind .env fun env => ?_
  split
  · exact .bind (.refuse _) fun _ => hrest
  · exact hrest

theorem Declaration.lower_straight (d : Declaration) : Straight d.lower := by
  cases d with
  | const keyword entries semicolon =>
    exact .bind (.consume _) fun _ =>
      .bind (.discard (Separated.lower_straight ConstEntry.lower_straight entries)) fun _ =>
        .terminal _
  | vars spec declarators semicolon =>
    exact .bind spec.lower_straight fun ty =>
      .bind (.discard (Separated.lower_straight (Declarator.lower_straight ty) declarators))
        fun _ => .terminal _
  | structDef keyword name opening items closing semicolon =>
    exact lowerStructDef_straight keyword name opening items closing semicolon

/-! ## Phrases with labels -/

/-- In an environment that has drawn the labels `known`, the code lands the labels `due` and those
that the phrase draws, and jumps only to the known ones and to those that the phrase draws. -/
structure LandsIn (known due : List Nat) (lo hi : Nat) (code : List Instruction) : Prop where
  le : lo ≤ hi
  landed : ∀ n, landed n code = (if lo ≤ n ∧ n < hi then 1 else 0) + due.count n
  wired : ∀ i ∈ code, i.Wired fun n => n ∈ known ∨ lo ≤ n ∧ n < hi

def Lands {α : Type} (known due : List Nat) (x : Lowering α) : Prop :=
  ∀ env : Env, (∀ n ∈ known, n < env.nextLabel) →
    LandsIn known due env.nextLabel (x env).env.nextLabel (x env).code

namespace LandsIn

variable {known due due₁ due₂ : List Nat} {lo mid hi : Nat} {code first second : List Instruction}

theorem of_straight (h : StraightCode code) (n : Nat) : LandsIn known [] n n code where
  le := Nat.le_refl n
  landed m := by
    rw [h.landed m, if_neg (by omega)]
    rfl
  wired := h.wired _

theorem enter {label : String} (h : IsProcedureLabel label) (size n : Nat) :
    LandsIn known [] n n [.labelled (.named label) (.enter size)] where
  le := Nat.le_refl n
  landed m := by
    rw [if_neg (by omega)]
    simp [SlotLang.landed, Instruction.labelled]
  wired i hi := by
    rw [List.mem_singleton.mp hi]
    exact .enter h size

theorem leave (n : Nat) : LandsIn known [] n n [.plain .leave, .plain .ret] where
  le := Nat.le_refl n
  landed m := by
    rw [if_neg (by omega)]
    rfl
  wired i hi := by
    have hop : i = .plain .leave ∨ i = .plain .ret := by simpa using hi
    rcases hop with rfl | rfl
    · exact .straight rfl
    · exact .straight rfl

theorem append (h₁ : LandsIn known due₁ lo mid first) (h₂ : LandsIn known due₂ mid hi second) :
    LandsIn known (due₁ ++ due₂) lo hi (first ++ second) where
  le := Nat.le_trans h₁.le h₂.le
  landed n := by
    have hle₁ := h₁.le
    have hle₂ := h₂.le
    rw [landed_append, h₁.landed, h₂.landed, List.count_append]
    grind
  wired i hi := by
    have hle₁ := h₁.le
    have hle₂ := h₂.le
    rcases List.mem_append.mp hi with hi | hi
    · exact (h₁.wired i hi).mono fun n => Or.imp_right fun hn => by omega
    · exact (h₂.wired i hi).mono fun n => Or.imp_right fun hn => by omega

/-- A label that was drawn first and landed in the end is a label of the phrase itself. -/
theorem close (h : LandsIn (lo :: known) due₁ (lo + 1) hi code) (hdue : due₁.Perm (lo :: due)) :
    LandsIn known due lo hi code where
  le := Nat.le_of_succ_le h.le
  landed n := by
    have hle := h.le
    rw [h.landed, hdue.count_eq, List.count_cons]
    grind
  wired i hi := by
    refine (h.wired i hi).mono fun n hn => ?_
    have hle := h.le
    rcases hn with hn | hn
    · rcases List.mem_cons.mp hn with rfl | hn
      · omega
      · exact .inl hn
    · omega

end LandsIn

theorem Straight.lands {α : Type} {x : Lowering α} (h : Straight x) (known : List Nat) :
    Lands known [] x := by
  intro env _
  rw [(h env).1]
  exact .of_straight (h env).2 env.nextLabel

namespace Lands

variable {α β : Type} {known due due₁ due₂ : List Nat}

theorem weaken {x : Lowering α} (h : Lands [] due x) (known : List Nat) : Lands known due x := by
  intro env _
  have hlands := h env (by simp)
  exact ⟨hlands.le, hlands.landed, fun i hi => (hlands.wired i hi).mono fun n hn => by simp_all⟩

theorem bind {x : Lowering α} {f : α → Lowering β} (hx : Lands known due₁ x)
    (hf : ∀ a, Lands known due₂ (f a)) : Lands known (due₁ ++ due₂) (x >>= f) := by
  intro env hknown
  have hfirst := hx env hknown
  refine hfirst.append (hf _ _ fun n hn => ?_)
  exact Nat.lt_of_lt_of_le (hknown n hn) hfirst.le

/-- What follows a straight phrase may depend on the value that the phrase gives. -/
theorem straight_bind_value {x : Lowering α} {f : α → Lowering β} (hx : Straight x)
    (hf : ∀ env, Lands known due (f (x env).value)) : Lands known due (x >>= f) := by
  intro env hknown
  have hfirst := hx.lands known env hknown
  refine hfirst.append (hf env _ fun n hn => ?_)
  exact Nat.lt_of_lt_of_le (hknown n hn) hfirst.le

theorem straight_bind {x : Lowering α} {f : α → Lowering β} (hx : Straight x)
    (hf : ∀ a, Lands known due (f a)) : Lands known due (x >>= f) :=
  straight_bind_value hx fun _ => hf _

theorem freshLabel_bind {f : Label → Lowering β}
    (hf : ∀ n, ∃ due₁, Lands (n :: known) due₁ (f (.fresh n)) ∧ due₁.Perm (n :: due)) :
    Lands known due (freshLabel >>= f) := by
  intro env hknown
  obtain ⟨due₁, hlands, hperm⟩ := hf env.nextLabel
  refine (hlands { env with nextLabel := env.nextLabel + 1 } ?_).close hperm
  intro n hn
  rcases List.mem_cons.mp hn with rfl | hn
  · exact Nat.lt_succ_self _
  · exact Nat.lt_succ_of_lt (hknown n hn)

/-- Straight code that was captured stays straight wherever it is put. -/
theorem captured_bind {x : Lowering α} {f : α × List Instruction → Lowering β} (hx : Straight x)
    (hf : ∀ a code, StraightCode code → Lands known due (f (a, code))) :
    Lands known due (captured x >>= f) := by
  intro env hknown
  obtain ⟨hlabel, hcode⟩ := hx env
  have hlands := hf (x env).value (x env).code hcode (x env).env (by rwa [hlabel])
  rw [hlabel] at hlands
  exact hlands

theorem jump {op : Op} {n : Nat} (hop : op.target? = some (.fresh n)) (hn : n ∈ known) :
    Lands known [] (emit op) := by
  intro env _
  refine ⟨Nat.le_refl _, ?_, ?_⟩
  · intro m
    rw [if_neg (by exact fun h => Nat.lt_irrefl _ (Nat.lt_of_le_of_lt h.1 h.2))]
    rfl
  · intro i hi
    rw [List.mem_singleton.mp hi]
    exact .jump hop (.inl hn)

theorem jump_bind {op : Op} {n : Nat} {f : Unit → Lowering β}
    (hop : op.target? = some (.fresh n)) (hn : n ∈ known) (hf : ∀ a, Lands known due (f a)) :
    Lands known due (emit op >>= f) :=
  (Lands.jump hop hn).bind hf

theorem inner_bind {x : Lowering α} {f : α → Lowering β} (hx : Lands [] [] x)
    (hf : ∀ a, Lands known due (f a)) : Lands known due (x >>= f) :=
  (hx.weaken known).bind hf

theorem land (n : Nat) : Lands known [n] (Lowering.land (.fresh n)) := by
  intro env _
  refine ⟨Nat.le_refl _, ?_, ?_⟩
  · intro m
    rw [if_neg (by exact fun h => Nat.lt_irrefl _ (Nat.lt_of_le_of_lt h.1 h.2))]
    simp [SlotLang.landed, Lowering.land, Lowering.emitAll, Instruction.landing,
      Instruction.labelled, List.count_cons, List.countP_cons]
  · intro i hi
    rw [List.mem_singleton.mp hi]
    exact .landing n

end Lands

end SlotLang
