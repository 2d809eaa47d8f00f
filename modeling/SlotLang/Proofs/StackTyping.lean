import SlotLang.Proofs.JumpTargets
import SlotLang.Proofs.StackEffect

/-!
# The typing of the operand stack

Every listing without errors has a stack typing: a list of types for every address, such that every
instruction finds operands of the types that it needs and leaves what the next one expects, along
every edge of control inside a procedure.
-/

namespace SlotLang

/-- Control can go on to the next instruction. -/
def Op.fallsThrough : Op → Bool
  | .jump _ | .ret => false
  | _ => true

namespace Program

/-- The types on the operand stack in front of every instruction of a program, the top first.

`Emitted.Effect` says what an instruction finds and what it leaves: the types of its parameters, the
last one on top, at the entry of a procedure, and nothing at its end; integers for arithmetic and
output, two operands of one type for a comparison, a Boolean for a conditional jump; a value of the
type of the addressed symbol for an access to storage; the arguments for a call, with the types that
are registered for its label.  The entry of a procedure is followed by the instructions that store
its arguments. -/
structure StackTyping (p : Program) (τ : Nat → List Ty) : Prop where
  scalar : ∀ a, ∀ ty ∈ τ a, ty.IsScalar
  prologue : ∀ (e : Nat) (r : Routine), p.code[e]? = some r.entry → ∀ k < r.params.length,
    p.code[e + (r.params.length - k)]? = some (.argument k)
  effect : ∀ (a : Nat) (x : Emitted), p.code[a]? = some x →
    ∃ after, x.Effect (p.contextAt a) (τ a) after ∧
      (x.op.fallsThrough = true → a + 1 < p.code.length →
        owner (erase p.code) (a + 1) = owner (erase p.code) a → τ (a + 1) = after) ∧
      ∀ label, x.op.target? = some label → ∀ (b : Nat) (i : Instruction),
        (erase p.code)[b]? = some i → i.carries label.text = true → τ b = after

end Program

/-! ## Scalar types -/

/-- All symbols around an instruction hold integers or Booleans. -/
structure Context.Scalar (ctx : Context) : Prop where
  frames : ∀ frame ∈ ctx.frames, ∀ s ∈ frame.entries, s.Scalar
  globals : ∀ s ∈ ctx.globals.entries, s.Scalar
  externals : ∀ s ∈ ctx.externals.entries, s.Scalar

theorem Context.Scalar.isScalar {ctx : Context} (h : ctx.Scalar) {cell : Cell} {s : Symbol}
    (hholds : ctx.Holds cell s) : s.ty.IsScalar := by
  cases hholds with
  | frame hlevel hstores hlt =>
    exact h.frames _ (List.mem_of_getElem? hlevel) s hstores.declared hstores.storage
  | slot hstores hlt => exact h.globals s hstores.declared hstores.storage
  | external hdeclared hstorage => exact h.externals s hdeclared hstorage

/-- An instruction leaves only scalars on the stack if it finds only scalars there. -/
theorem Emitted.Effect.scalar {ctx : Context} (hctx : ctx.Scalar) {x : Emitted} {σ σ' : List Ty}
    (h : x.Effect ctx σ σ') (hσ : ∀ ty ∈ σ, ty.IsScalar) : ∀ ty ∈ σ', ty.IsScalar := by
  cases h with
  | moves h =>
    cases h with
    | number | read => exact List.forall_mem_cons.mpr ⟨.inl rfl, hσ⟩
    | boolean => exact List.forall_mem_cons.mpr ⟨.inr rfl, hσ⟩
    | load haccesses => exact List.forall_mem_cons.mpr ⟨hctx.isScalar haccesses.cell, hσ⟩
    | store | write => exact (List.forall_mem_cons.mp hσ).2
    | neg => exact hσ
    | arith => exact (List.forall_mem_cons.mp hσ).2
    | compare =>
      have hrest := (List.forall_mem_cons.mp (List.forall_mem_cons.mp hσ).2).2
      exact List.forall_mem_cons.mpr ⟨.inr rfl, hrest⟩
    | jump | jumpUnless | landing | call => simp
  | enter => exact hσ
  | argument => exact (List.forall_mem_cons.mp hσ).2
  | leave | ret => simp

theorem Scope.IsFrame.paramTypes_scalar {r : Routine} {depth : Nat}
    (h : r.frame.IsFrame depth r.params) (hscalar : ∀ s ∈ r.frame.entries, s.Scalar) :
    ∀ ty ∈ r.paramTypes, ty.IsScalar := by
  intro ty hty
  obtain ⟨⟨name, ty⟩, hparam, rfl⟩ := List.mem_map.mp hty
  obtain ⟨k, hk⟩ := List.mem_iff_getElem?.mp hparam
  exact hscalar _ (h.params k name ty hk) rfl

/-! ## Jumps -/

/-- The stack is empty in front of every label and behind every jump. -/
theorem Emitted.Effect.of_landing {ctx : Context} {x : Emitted} {σ σ' : List Ty} {n : Nat}
    (h : x.Effect ctx σ σ') (hx : x.instruction = .landing (.fresh n)) : σ = [] := by
  have hlabel : x.instruction.label = some (.fresh n) := by rw [hx]; rfl
  cases h with
  | moves h =>
    cases h with
    | landing => rfl
    | _ => cases hlabel
  | _ => cases hlabel

theorem Emitted.Effect.of_target {ctx : Context} {x : Emitted} {σ σ' : List Ty} {label : Label}
    (h : x.Effect ctx σ σ') (hx : x.op.target? = some label) : σ' = [] := by
  cases h with
  | moves h =>
    cases h with
    | jump | jumpUnless | landing | call => rfl
    | @load u =>
      change u.cell.loadOp.target? = some label at hx
      cases hcell : u.cell <;> rw [hcell] at hx <;> cases hx
    | @store u =>
      change u.cell.storeOp.target? = some label at hx
      cases hcell : u.cell <;> rw [hcell] at hx <;> cases hx
    | _ => cases hx
  | _ => cases hx

/-! ## The typing of a program -/

theorem Routine.StandsIn.argument {r : Routine} {e : Nat} {code : List Emitted}
    (h : r.StandsIn e code) {k : Nat} (hk : k < r.params.length) :
    code[e + (r.params.length - k)]? = some (.argument k) := by
  obtain ⟨front, back, n, rfl, rfl⟩ := h
  have hprologue : (prologue r.params.length)[r.params.length - k - 1]? = some (.argument k) := by
    have hindex : r.params.length - 1 - (r.params.length - k - 1) = k := by omega
    rw [prologue, List.getElem?_map, List.getElem?_reverse (by simp; omega), List.length_range,
      hindex, List.getElem?_range hk]
    rfl
  have hlength : (prologue r.params.length).length = r.params.length := by simp [prologue]
  have hsucc : r.params.length - k = (r.params.length - k - 1) + 1 := by omega
  rw [List.append_assoc, List.getElem?_append_right (Nat.le_add_right _ _), Nat.add_sub_cancel_left,
    around, hsucc, List.cons_append, List.getElem?_cons_succ, List.append_assoc, List.append_assoc,
    List.getElem?_append_left (by omega)]
  exact hprologue

namespace Program

/-- The types in front of every instruction, from those behind the instruction in front of it. -/
def entryTypes (p : Program) (τ : Nat → List Ty) (a : Nat) : List Ty :=
  match p.code[a]? with
  | some x => x.entryTypes (τ a)
  | none => []

section

variable {p : Program} {c : Compilation} {τ : Nat → List Ty} (hτ : p.Effects τ)

include hτ

theorem CompilesTo.context_scalar (h : p.CompilesTo c) (a : Nat) : (p.contextAt a).Scalar := by
  refine ⟨?_, h.scalar.symbols.global, h.scalar.symbols.external⟩
  intro frame hframe
  obtain ⟨r, hr, rfl⟩ := List.mem_map.mp hframe
  obtain ⟨e, -, he⟩ := List.mem_filterMap.mp hr
  obtain ⟨x, hx, hroutine⟩ := Option.bind_eq_some_iff.mp he
  exact ((hτ e x hx).eq_entry hroutine).2.2

theorem entryTypes_scalar {a : Nat} {x : Emitted} (hx : p.code[a]? = some x)
    (ha : ∀ ty ∈ τ a, ty.IsScalar) : ∀ ty ∈ x.entryTypes (τ a), ty.IsScalar := by
  unfold Emitted.entryTypes
  split
  next r hr =>
    obtain ⟨-, hframe, hscalar⟩ := (hτ a x hx).eq_entry hr
    intro ty hty
    exact hframe.paramTypes_scalar hscalar ty (List.mem_reverse.mp hty)
  next => exact ha

theorem CompilesTo.types_scalar (h : p.CompilesTo c) (hstart : τ 0 = []) {a : Nat}
    (ha : a ≤ p.code.length) : ∀ ty ∈ τ a, ty.IsScalar := by
  induction a with
  | zero => simp [hstart]
  | succ a ih =>
    have hx : p.code[a]? = some p.code[a] := List.getElem?_eq_getElem ha
    exact (hτ a _ hx).scalar (h.context_scalar hτ a)
      (entryTypes_scalar hτ hx (ih (Nat.le_of_succ_le ha)))

theorem CompilesTo.stackTyping (h : p.CompilesTo c) (hstart : τ 0 = []) {drawn : Nat}
    (hlinked : Linked drawn c.listing) : p.StackTyping (p.entryTypes τ) := by
  have hmem : ∀ i ∈ erase p.code, i ∈ c.listing := by
    intro i hi
    rw [h.listing]
    exact List.mem_append_right _ hi
  have htypes : ∀ {a x}, p.code[a]? = some x → p.entryTypes τ a = x.entryTypes (τ a) := by
    intro a x hx
    rw [entryTypes, hx]
  refine ⟨?_, fun e r he k hk => (partsCode_standsIn rfl he).argument hk, ?_⟩
  · intro a
    unfold entryTypes
    split
    next x hx =>
      have ha := (List.getElem?_eq_some_iff.mp hx).1
      exact entryTypes_scalar hτ hx (h.types_scalar hτ hstart (Nat.le_of_lt ha))
    next => simp
  · intro a x hx
    refine ⟨τ (a + 1), by rw [htypes hx]; exact hτ a x hx, ?_, ?_⟩
    · intro _ hlt howner
      have hy : p.code[a + 1]? = some p.code[a + 1] := List.getElem?_eq_getElem hlt
      have hmarked : (p.code[a + 1]).Marked := (hτ (a + 1) _ hy).marked
      -- The next instruction belongs to the same procedure, so it does not enter another one.
      have hnone : (p.code[a + 1]).routine? = none := by
        by_contra hsome
        have henter : (p.code[a + 1]).op.isEnter = true :=
          hmarked ▸ Option.isSome_iff_ne_none.mpr hsome
        exact owner_ne_of_isEnter (by simp [erase, hy]) henter howner
      rw [htypes hy, Emitted.entryTypes, hnone]
    · intro label hlabel b i hi hcarries
      have hi' : i ∈ c.listing := hmem i (List.mem_of_getElem? hi)
      have hx' : x.instruction ∈ c.listing :=
        hmem _ (List.mem_map_of_mem (List.mem_of_getElem? hx))
      obtain ⟨n, -, rfl⟩ := hlinked.jumps _ hx' label hlabel
      have hlanding := hlinked.landings i hi' n hcarries
      obtain ⟨y, hy, rfl⟩ : ∃ y, p.code[b]? = some y ∧ y.instruction = i := by
        simpa [erase] using hi
      rw [htypes hy, (hτ b y hy).of_landing hlanding, (hτ a x hx).of_target hlabel]

end

end Program

/-- Code that was compiled without errors has a stack typing. -/
theorem exists_stackTyping {source file : String} {minDistance : Nat} {c : Compilation}
    (hcompile : compile source file minDistance = .ok c) (hcount : c.errorCount = 0) :
    ∃ p : Program, parse source file = .ok p ∧
      c.listing = header p.globals p.externals ++ erase p.code ∧ ∃ τ, p.StackTyping τ := by
  obtain ⟨p, hparse, hp⟩ := exists_compilesTo hcompile hcount
  obtain ⟨drawn, hlinked⟩ := compile_linked hcompile
  obtain ⟨τ, hstart, hτ⟩ := hp.exists_effects
  exact ⟨p, hparse, hp.listing, _, hp.stackTyping hτ hstart hlinked⟩

theorem exists_stackTyping_sampleText :
    ∃ c, compile sampleText "sample" 2 = .ok c ∧ c.errorCount = 0 ∧
      ∃ p : Program, parse sampleText "sample" = .ok p ∧
        c.listing = header p.globals p.externals ++ erase p.code ∧ ∃ τ, p.StackTyping τ := by
  obtain ⟨c, hcompile, hcount⟩ := sampleText_accepted
  exact ⟨c, hcompile, hcount, exists_stackTyping hcompile hcount⟩

end SlotLang
