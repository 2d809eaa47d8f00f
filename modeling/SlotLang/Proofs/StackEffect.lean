import SlotLang.Proofs.Cells
import SlotLang.Proofs.Nesting
import SlotLang.Proofs.ProgramCode

/-!
# Types on the operand stack

What every instruction of a well typed program finds on the operand stack and what it leaves there,
as far as types go.  An instruction that accesses storage moves a value of the type of the symbol that
is stored there, and which one that is depends on the routines around the instruction.

Between two statements the stack is empty, and so it is at every label.  This is what makes the
linear reading of the code sound: the stack behind a jump is the stack in front of its target.
-/

namespace SlotLang

open Emitted

/-- What is around an instruction: the routines, the innermost first, and the names of the program. -/
structure Context where
  routines : List Routine
  globals : Scope
  externals : Scope

namespace Context

def frames (ctx : Context) : List Scope := ctx.routines.map (·.frame)

/-- The scopes of the routines and of the program, the innermost first. -/
def chain (ctx : Context) : List Scope := ctx.frames ++ [ctx.globals]

/-- The symbol is stored in the cell. -/
def Holds (ctx : Context) (cell : Cell) (s : Symbol) : Prop :=
  cell.Holds ctx.frames ctx.globals ctx.externals s

/-- The name is resolved in earlier stages of the scopes around it, it denotes the symbol, and its
cell is where the symbol is stored. -/
structure Accesses (ctx : Context) (u : Use) (s : Symbol) : Prop where
  past : u.scopes.Past ctx.chain ctx.externals
  denotes : ∃ external, u.scopes.Finds u.name ⟨s, external⟩
  cell : ctx.Holds u.cell s

end Context

def Routine.paramTypes (r : Routine) : List Ty := r.params.map (·.2)

/-- The types on the stack in front of an instruction of an action and behind it, the top first. -/
inductive Emitted.Moves (ctx : Context) : Emitted → List Ty → List Ty → Prop where
  | number (value : Int) {σ : List Ty} : Moves ctx (plain (.const value)) σ (.int :: σ)
  | boolean (value : Bool) {σ : List Ty} :
      Moves ctx (plain (.const (if value then 1 else 0))) σ (.bool :: σ)
  | load {u : Use} {s : Symbol} {σ : List Ty} (h : ctx.Accesses u s) :
      Moves ctx (load u) σ (s.ty :: σ)
  | store {u : Use} {s : Symbol} {σ : List Ty} (h : ctx.Accesses u s) :
      Moves ctx (store u) (s.ty :: σ) σ
  | neg {σ : List Ty} : Moves ctx (plain .neg) (.int :: σ) (.int :: σ)
  | arith (op : ArithOp) {σ : List Ty} :
      Moves ctx (plain (.arith op)) (.int :: .int :: σ) (.int :: σ)
  | compare (op : Comparison) {ty : Ty} {σ : List Ty} :
      Moves ctx (plain (.compare op)) (ty :: ty :: σ) (.bool :: σ)
  | read {σ : List Ty} : Moves ctx (plain .read) σ (.int :: σ)
  | write {σ : List Ty} : Moves ctx (plain .write) (.int :: σ) σ
  | jump (n : Nat) : Moves ctx (jump n) [] []
  | jumpUnless (n : Nat) : Moves ctx (jumpUnless n) [.bool] []
  | landing (n : Nat) : Moves ctx (landing n) [] []
  | call {callee : Use} {arguments : List Term} {signatures : Signatures} {types : List Ty}
      (harguments : List.Forall₂ Term.HasType arguments types)
      (haccepts : callee.Accepts signatures types) :
      Moves ctx ⟨.plain callee.callOp, .call callee arguments signatures⟩ types.reverse []

/-- The same for every instruction of a program.  The innermost routine of the context is the one that
the instruction belongs to. -/
inductive Emitted.Effect (ctx : Context) : Emitted → List Ty → List Ty → Prop where
  | moves {x : Emitted} {σ σ' : List Ty} (h : x.Moves ctx σ σ') : Effect ctx x σ σ'
  | enter {r : Routine} (hr : ctx.routines.head? = some r)
      (hframe : r.frame.IsFrame ctx.routines.length r.params)
      (hscalar : ∀ s ∈ r.frame.entries, s.Scalar) :
      Effect ctx r.entry r.paramTypes.reverse r.paramTypes.reverse
  | argument {r : Routine} {k : Nat} {s : Symbol} {σ : List Ty}
      (hr : ctx.routines.head? = some r) (hparam : r.params[k]? = some (s.name, s.ty))
      (hcell : ctx.Holds (.frame 0 k) s) : Effect ctx (argument k) (s.ty :: σ) σ
  | leave : Effect ctx (plain .leave) [] []
  | ret : Effect ctx (plain .ret) [] []

/-! ## Code that leaves the nesting as it is -/

/-- The types that an instruction finds on the stack, if those are there behind the instruction in
front of it: only a routine is entered in another way. -/
def Emitted.entryTypes (x : Emitted) (σ : List Ty) : List Ty :=
  match x.routine? with
  | some r => r.paramTypes.reverse
  | none => σ

def context (globals externals : Scope) (opened : List (Nat × Routine)) : Context :=
  ⟨opened.map (·.2), globals, externals⟩

@[simp] theorem context_chain_length (globals externals : Scope) (opened : List (Nat × Routine)) :
    (context globals externals opened).chain.length = opened.length + 1 := by
  simp [context, Context.chain, Context.frames]

def TypedStep (globals externals : Scope) (opened : List (Nat × Routine)) (x : Emitted)
    (σ σ' : List Ty) : Prop :=
  x.Effect (context globals externals opened) (x.entryTypes σ) σ'

/-- Wherever it stands among these routines, the code leads from stacks of the first kind to stacks of
the second kind, and behind it the same routines are open. -/
def Passes (globals externals : Scope) (opened : List (Nat × Routine)) (code : List Emitted)
    (σ σ' : List Ty) : Prop :=
  ∀ a, Threads (TypedStep globals externals) opened a code σ σ' ∧ leaving opened a code = opened

section

variable {globals externals : Scope} {opened : List (Nat × Routine)} {σ ρ σ' : List Ty}

namespace Passes

theorem nil : Passes globals externals opened [] σ σ := fun _ => ⟨rfl, rfl⟩

theorem append {first second : List Emitted} (h₁ : Passes globals externals opened first σ ρ)
    (h₂ : Passes globals externals opened second ρ σ') :
    Passes globals externals opened (first ++ second) σ σ' := by
  intro a
  obtain ⟨hthreads₁, hleaving₁⟩ := h₁ a
  obtain ⟨hthreads₂, hleaving₂⟩ := h₂ (a + first.length)
  refine ⟨hthreads₁.append ?_, ?_⟩
  · rw [hleaving₁]
    exact hthreads₂
  · rw [leaving_append, hleaving₁, hleaving₂]

theorem cons_inner {x : Emitted} {code : List Emitted} (hinner : x.inner = true)
    (hx : x.Effect (context globals externals opened) σ ρ)
    (hcode : Passes globals externals opened code ρ σ') :
    Passes globals externals opened (x :: code) σ σ' := by
  intro a
  obtain ⟨hthreads, hleaving⟩ := hcode (a + 1)
  refine ⟨⟨ρ, ?_, ?_⟩, ?_⟩
  · rw [entered_of_inner hinner, TypedStep, Emitted.entryTypes, (Emitted.inner_iff.mp hinner).1]
    exact hx
  · rw [left_of_inner hinner]
    exact hthreads
  · rw [leaving, left_of_inner hinner, hleaving]

end Passes

theorem Emitted.Moves.inner {ctx : Context} {x : Emitted} (h : x.Moves ctx σ σ') :
    x.inner = true := by
  cases h <;> simp

namespace Passes

theorem cons {x : Emitted} {code : List Emitted}
    (hx : x.Moves (context globals externals opened) σ ρ)
    (hcode : Passes globals externals opened code ρ σ') :
    Passes globals externals opened (x :: code) σ σ' :=
  cons_inner hx.inner (.moves hx) hcode

theorem one {x : Emitted} (hx : x.Moves (context globals externals opened) σ σ') :
    Passes globals externals opened [x] σ σ' :=
  cons hx nil

end Passes

/-! ## Actions -/

/-- The names of a term or an action are resolved in stages of the scopes around it. -/
abbrev Context.Resolves (ctx : Context) (u : Use) : Prop := u.scopes.Past ctx.chain ctx.externals

theorem Use.Denotes.accesses {ctx : Context} (hlaid : LaidOutStack ctx.chain) {u : Use}
    {kind : SymbolKind} {ty : Ty} (hdenotes : u.Denotes kind ty) (hkind : kind.hasStorage = true)
    (hpast : ctx.Resolves u) : ∃ s, ctx.Accesses u s ∧ s.ty = ty := by
  obtain ⟨target, htarget, rfl, rfl⟩ := hdenotes
  exact ⟨target.symbol, ⟨hpast, ⟨target.external, ScopeStack.resolve_eq_some_iff.mp htarget⟩,
    Use.cell_holds hlaid hpast htarget hkind⟩, rfl⟩

variable (hlaid : LaidOutStack (context globals externals opened).chain)

include hlaid

theorem Use.Denotes.load_passes {u : Use} {kind : SymbolKind} {ty : Ty}
    (hdenotes : u.Denotes kind ty) (hkind : kind.hasStorage = true)
    (hpast : (context globals externals opened).Resolves u) :
    Passes globals externals opened [Emitted.load u] σ (ty :: σ) := by
  obtain ⟨s, haccesses, rfl⟩ := hdenotes.accesses hlaid hkind hpast
  exact .one (.load haccesses)

theorem Use.Denotes.store_moves {u : Use} {kind : SymbolKind} {ty : Ty}
    (hdenotes : u.Denotes kind ty) (hkind : kind.hasStorage = true)
    (hpast : (context globals externals opened).Resolves u) :
    (Emitted.store u).Moves (context globals externals opened) (ty :: σ) σ := by
  obtain ⟨s, haccesses, rfl⟩ := hdenotes.accesses hlaid hkind hpast
  exact .store haccesses

theorem Term.HasType.code_passes {t : Term} {ty : Ty} (htyped : t.HasType ty)
    (huses : t.Uses (context globals externals opened).Resolves) (σ : List Ty) :
    Passes globals externals opened t.code σ (ty :: σ) := by
  induction htyped generalizing σ with
  | number value => exact .one (.number value)
  | boolean value => exact .one (.boolean value)
  | use hkind hdenotes => exact hdenotes.load_passes hlaid hkind huses
  | negation _ ih =>
    exact (ih huses σ).append (.cons .neg (.cons (.number 1) (.one (.arith .add))))
  | arithmetic _ _ ihLeft ihRight =>
    exact ((ihLeft huses.1 σ).append (ihRight huses.2 _)).append (.one (.arith _))
  | comparison _ _ ihLeft ihRight =>
    exact ((ihLeft huses.1 σ).append (ihRight huses.2 _)).append (.one (.compare _))

theorem arguments_code_passes {arguments : List Term} {types : List Ty}
    (htyped : List.Forall₂ Term.HasType arguments types)
    (huses : ∀ t ∈ arguments, t.Uses (context globals externals opened).Resolves) (σ : List Ty) :
    Passes globals externals opened (arguments.flatMap Term.code) σ (types.reverse ++ σ) := by
  induction htyped generalizing σ with
  | nil => exact .nil
  | cons hhead _ ih =>
    rw [List.flatMap_cons, List.reverse_cons, List.append_assoc]
    exact (hhead.code_passes hlaid (huses _ List.mem_cons_self) σ).append
      (ih (fun t ht => huses t (List.mem_cons_of_mem _ ht)) _)

mutual

theorem Action.code_passes : ∀ (a : Action) (n : Nat), a.WellTyped →
    a.Uses (context globals externals opened).Resolves →
    Passes globals externals opened (a.code n) [] []
  | .skip, _, _, _ => .nil
  | .store _ _ _, _, ⟨_, hkind, hdenotes, hvalue⟩, huses =>
      (hvalue.code_passes hlaid huses.2 []).append
        (.one (hdenotes.store_moves hlaid hkind huses.1))
  | .choose _ _ _ _, _, ⟨_, hdenotes, hguard, hfirst, hsecond⟩, huses =>
      have hstore := hdenotes.store_moves hlaid rfl huses.1
      (((((hguard.code_passes hlaid huses.2.1 []).append (.one (.jumpUnless _))).append
        (hfirst.code_passes hlaid huses.2.2.1 [])).append
        (.cons hstore (.cons (.jump _) (.one (.landing _))))).append
        (hsecond.code_passes hlaid huses.2.2.2 [])).append (.cons hstore (.one (.landing _)))
  | .call _ _ _, _, ⟨types, harguments, haccepts⟩, huses => by
      have hcode := arguments_code_passes hlaid harguments huses.2 []
      rw [List.append_nil] at hcode
      exact hcode.append (.one (.call harguments haccepts))
  | .read _, _, hdenotes, huses =>
      .cons .read (.one (Use.Denotes.store_moves hlaid hdenotes rfl huses))
  | .write _, _, hvalue, huses =>
      (Term.HasType.code_passes hlaid hvalue huses []).append (.one .write)
  | .seq first second, n, htyped, huses =>
      (Action.code_passes first n htyped.1 huses.1).append
        (Action.code_passes second _ htyped.2 huses.2)
  | .branch _ body alternative, _, ⟨htest, hbody, halternative⟩, huses =>
      (((((htest.code_passes hlaid huses.1 []).append (.one (.jumpUnless _))).append
        (Action.code_passes body _ hbody huses.2.1)).append
        (.cons (.jump _) (.one (.landing _)))).append
        (Action.code_passes alternative _ halternative huses.2.2)).append (.one (.landing _))
  | .loop _ body, _, ⟨htest, hbody⟩, huses =>
      (((Passes.one (.landing _)).append (htest.code_passes hlaid huses.1 [])).append
        (.one (.jumpUnless _))).append (Action.code_passes body _ hbody huses.2) |>.append
        (.cons (.jump _) (.one (.landing _)))
  | .rounds _ _ _ body, _, ⟨_, htest, hdenotes, hstep, hbody⟩, huses =>
      -- The result of the test waits below the value of the step.
      have hstore := hdenotes.store_moves hlaid rfl huses.2.1
      ((((Passes.cons (.jump _) (.one (.landing _))).append
        (htest.code_passes hlaid huses.1 [])).append
        (hstep.code_passes hlaid huses.2.2.1 _)).append
        (.cons hstore (.one (.jumpUnless _)))).append
        (Action.code_passes body _ hbody huses.2.2.2) |>.append
        (.cons (.landing _) (.cons (.jump _) (.one (.landing _))))
  | .switch subject cases fallback, _, ⟨_, hsubject, hcases, hfallback⟩, huses =>
      ((Cases.code_passes cases subject _ _ _ hsubject hcases huses.1 huses.2.1).append
        (Action.code_passes fallback _ hfallback huses.2.2)).append (.one (.landing _))

theorem Cases.code_passes : ∀ (cases : Cases) (subject : Term) (ty : Ty) (exit n : Nat),
    subject.HasType ty → cases.WellTyped ty →
    subject.Uses (context globals externals opened).Resolves →
    cases.Uses (context globals externals opened).Resolves →
    Passes globals externals opened (cases.code subject exit n) [] []
  | .none, _, _, _, _, _, _, _, _ => .nil
  | .case _ body rest, subject, ty, exit, _, hsubject, ⟨hlabel, hbody, hrest⟩, huse, huses =>
      (((((hsubject.code_passes hlaid huse []).append
        (hlabel.code_passes hlaid huses.1 _)).append
        (.cons (.compare .equ) (.one (.jumpUnless _)))).append
        (Action.code_passes body _ hbody huses.2.1)).append
        (.cons (.jump _) (.one (.landing _)))).append
        (Cases.code_passes rest subject ty exit _ hsubject hrest huse huses.2.2)

end

end

/-! ## Routines -/

section

variable {globals externals : Scope} {opened : List (Nat × Routine)} {σ : List Ty}

theorem prologue_succ (count : Nat) :
    Routine.prologue (count + 1) = argument count :: Routine.prologue count := by
  simp [Routine.prologue, List.range_succ]

/-- The arguments are popped in the order in which they lie on the stack, the last one first. -/
theorem prologue_passes {e : Nat} {r : Routine} {depth : Nat}
    (hframe : r.frame.IsFrame depth r.params) {count : Nat} (hcount : count ≤ r.params.length) :
    Passes globals externals ((e, r) :: opened) (Routine.prologue count)
      (r.paramTypes.take count).reverse [] := by
  induction count with
  | zero => exact .nil
  | succ k ih =>
    obtain ⟨⟨name, ty⟩, hget⟩ : ∃ param, r.params[k]? = some param :=
      ⟨_, List.getElem?_eq_getElem hcount⟩
    have htypes : (r.paramTypes.take (k + 1)).reverse = ty :: (r.paramTypes.take k).reverse := by
      have htype : r.paramTypes[k]? = some ty := by
        simp [Routine.paramTypes, hget]
      rw [List.take_add_one, htype]
      simp
    have hstores : r.frame.Stores ⟨name, .var, ty, depth, some k⟩ k :=
      ⟨hframe.params k name ty hget, rfl, rfl⟩
    obtain ⟨offset, hoffset, hslots⟩ := hframe.laidOut.stores hstores.declared rfl
    cases hoffset.offset
    rw [prologue_succ, htypes]
    refine .cons_inner rfl ?_ (ih (Nat.le_of_succ_le hcount))
    exact .argument (s := ⟨name, .var, ty, depth, some k⟩) rfl hget (.frame rfl hstores hslots)

theorem Routine.around_passes {r : Routine}
    (hframe : r.frame.IsFrame (opened.length + 1) r.params)
    (hscalar : ∀ s ∈ r.frame.entries, s.Scalar) {code : List Emitted}
    (hcode : ∀ e, Passes globals externals ((e, r) :: opened) code [] []) :
    Passes globals externals opened (r.around code) σ [] := by
  intro a
  have hprologue : Passes globals externals ((a, r) :: opened) (prologue r.params.length)
      r.paramTypes.reverse [] := by
    have htypes : r.paramTypes = r.paramTypes.take r.params.length := by
      rw [List.take_of_length_le (by simp [paramTypes])]
    rw [htypes]
    exact prologue_passes hframe (Nat.le_refl _)
  have hleave : Passes globals externals ((a, r) :: opened) [plain .leave] [] [] :=
    .cons_inner rfl .leave .nil
  obtain ⟨hthreads, hleaving⟩ := ((hprologue.append (hcode a)).append hleave) (a + 1)
  have haround : r.around code =
      r.entry :: ((prologue r.params.length ++ code ++ [plain .leave]) ++ [plain .ret]) := by
    simp [around]
  have hentered : entered opened a r.entry = (a, r) :: opened := rfl
  have hentry : left opened a r.entry = (a, r) :: opened := rfl
  rw [haround]
  refine ⟨⟨r.paramTypes.reverse, .enter rfl ?_ hscalar, ?_⟩, ?_⟩
  · simpa [context, hentered] using hframe
  · rw [hentry]
    refine hthreads.append ?_
    rw [hleaving]
    exact ⟨[], .ret, rfl⟩
  · rw [leaving, hentry, leaving_append, hleaving]
    rfl

/-- The routine that the code belongs to and those around it have the scopes of the chain. -/
theorem Body.code_passes : ∀ (body : Body) (opened : List (Nat × Routine)) (n : Nat),
    LaidOutStack (context globals externals opened).chain →
    body.Under externals (context globals externals opened).chain → body.WellTyped →
    Passes globals externals opened (body.code n) [] []
  | .done, _, _, _, _, _ => .nil
  | .action a rest, opened, n, hlaid, hunder, htyped =>
      (a.code_passes hlaid n htyped.1 hunder.1).append
        (rest.code_passes opened _ hlaid hunder.2 htyped.2)
  | .nested label params frame body rest, opened, n, hlaid, hunder, htyped => by
      obtain ⟨hframe, hbody, hrest⟩ := hunder
      have haround : Passes globals externals opened
          (Routine.around ⟨label, params, frame, body⟩ (body.code (n + 1))) [] [] :=
        Routine.around_passes (by simpa using hframe) htyped.1.1 fun e =>
          body.code_passes ((e, ⟨label, params, frame, body⟩) :: opened) _
            ⟨hframe.laidOut, hlaid⟩ hbody htyped.1.2
      exact (((Passes.one (.jump n)).append haround).append (.one (.landing n))).append
        (rest.code_passes opened _ hlaid hrest htyped.2)

theorem Part.code_passes {part : Part} (n : Nat) (hlaid : LaidOut 0 globals.entries)
    (hunder : part.Under externals [globals]) (htyped : part.WellTyped) :
    Passes globals externals [] (part.code n) [] [] := by
  cases part with
  | action a =>
    have hchain : LaidOutStack (context globals externals []).chain := ⟨hlaid, trivial⟩
    exact a.code_passes hchain n htyped hunder
  | routine r =>
    exact Routine.around_passes hunder.1 htyped.1 fun e =>
      r.body.code_passes [(e, r)] n ⟨hunder.1.laidOut, hlaid, trivial⟩ hunder.2 htyped.2

theorem partsCode_passes {parts : List Part} (n : Nat) (hlaid : LaidOut 0 globals.entries)
    (hunder : ∀ part ∈ parts, part.Under externals [globals])
    (htyped : ∀ part ∈ parts, part.WellTyped) :
    Passes globals externals [] (partsCode parts n) [] [] := by
  induction parts generalizing n with
  | nil => exact .nil
  | cons part parts ih =>
    have hpart := part.code_passes n hlaid (hunder part List.mem_cons_self)
      (htyped part List.mem_cons_self)
    exact hpart.append (ih _ (fun q hq => hunder q (List.mem_cons_of_mem _ hq))
      fun q hq => htyped q (List.mem_cons_of_mem _ hq))

end

/-! ## Programs -/

theorem Emitted.Effect.marked {ctx : Context} {x : Emitted} {σ σ' : List Ty}
    (h : x.Effect ctx σ σ') : x.Marked := by
  cases h with
  | moves h =>
    cases h with
    | load | store =>
      unfold Marked Emitted.op
      simp only [Emitted.load, Emitted.store, Instruction.plain]
      cases Use.cell _ <;> rfl
    | @call callee =>
      unfold Marked Emitted.op Use.callOp
      cases callee.target? <;> rfl
    | _ => rfl
  | _ => rfl

/-- An entry is made only for the innermost routine around it. -/
theorem Emitted.Effect.eq_entry {ctx : Context} {x : Emitted} {σ σ' : List Ty}
    (h : x.Effect ctx σ σ') {r : Routine} (hr : x.routine? = some r) :
    x = r.entry ∧ r.frame.IsFrame ctx.routines.length r.params ∧
      ∀ s ∈ r.frame.entries, s.Scalar := by
  cases h with
  | moves h => exact absurd hr (by simp [(Emitted.inner_iff.mp h.inner).1])
  | enter _ hframe hscalar =>
    cases hr
    exact ⟨rfl, hframe, hscalar⟩
  | _ => cases hr

namespace Program

theorem globals_laidOut (p : Program) :
    LaidOut 0 p.globals.entries ∧ ∀ part ∈ p.parts, part.Under p.externals [p.globals] := by
  obtain ⟨globals, hscopes, hlaid, hunder⟩ := p.elaborate_settles
  have hglobals : p.globals = globals := by
    simp [Program.globals, final, ScopeStack.global?, hscopes]
  rw [hglobals]
  exact ⟨hlaid, hunder⟩

/-- The routines around an instruction of the program, the innermost first. -/
def routinesAt (p : Program) (a : Nat) : List Routine :=
  (enclosing (erase p.code) a).filterMap fun e => p.code[e]?.bind Emitted.routine?

def contextAt (p : Program) (a : Nat) : Context := ⟨p.routinesAt a, p.globals, p.externals⟩

/-- The effects of all instructions, if the types on the stack are these. -/
def Effects (p : Program) (τ : Nat → List Ty) : Prop :=
  ∀ (a : Nat) (x : Emitted), p.code[a]? = some x →
    x.Effect (p.contextAt a) (x.entryTypes (τ a)) (τ (a + 1))

theorem Effects.marked {p : Program} {τ : Nat → List Ty} (h : p.Effects τ) :
    ∀ x ∈ p.code, x.Marked := by
  intro x hx
  obtain ⟨a, ha⟩ := List.mem_iff_getElem?.mp hx
  exact (h a x ha).marked

theorem CompilesTo.exists_effects {p : Program} {c : Compilation} (h : p.CompilesTo c) :
    ∃ τ : Nat → List Ty, τ 0 = [] ∧ p.Effects τ := by
  obtain ⟨hlaid, hunder⟩ := p.globals_laidOut
  obtain ⟨τ, hτ, heffect⟩ := (partsCode_passes 0 hlaid hunder h.typed 0).1.exists_states
  -- The effects are known for the routines that were tracked along the code; those are the ones that
  -- the listing shows, since entries are marked.
  have hmarked : ∀ x ∈ p.code, x.Marked := by
    intro x hx
    obtain ⟨a, ha⟩ := List.mem_iff_getElem?.mp hx
    exact (heffect a x ha).marked
  refine ⟨τ, hτ, fun a x hx => ?_⟩
  have hroutines : (entered (leaving [] 0 (p.code.take a)) a x).map (·.2) = p.routinesAt a :=
    map_snd_enclosing hmarked hx
  have hx := heffect a x hx
  rw [Nat.zero_add, TypedStep, context] at hx
  rwa [contextAt, ← hroutines]

/-- The routines around an instruction are those of the entries around it. -/
theorem Effects.exists_entry {p : Program} {τ : Nat → List Ty} (h : p.Effects τ) {a : Nat}
    {x : Emitted} (hx : p.code[a]? = some x) {level : Nat} {r : Routine}
    (hr : (p.routinesAt a)[level]? = some r) :
    ∃ e, (enclosing (erase p.code) a)[level]? = some e ∧ p.code[e]? = some r.entry := by
  obtain ⟨e, y, he, hy, hroutine⟩ := exists_entry_of_enclosing h.marked hx hr
  exact ⟨e, he, ((h e y hy).eq_entry hroutine).1 ▸ hy⟩

end Program

end SlotLang
