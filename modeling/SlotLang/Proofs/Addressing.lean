import SlotLang.Proofs.StackEffect

/-!
# Lexical addressing

An instruction that accesses storage by a level and an offset reaches the frame of a procedure around
it, at a slot that this frame has.  What stands there is the symbol that the name in the source
denotes at that place, by the scopes that were open when it was read.
-/

namespace SlotLang

/-- The cell that an operation accesses. -/
def Op.cell? : Op → Option Cell
  | .load level offset | .store level offset => some (.frame level offset)
  | .loadGlobal address | .storeGlobal address => some (.global address)
  | _ => none

@[simp] theorem Cell.cell?_loadOp (cell : Cell) : cell.loadOp.cell? = some cell := by
  cases cell <;> rfl

@[simp] theorem Cell.cell?_storeOp (cell : Cell) : cell.storeOp.cell? = some cell := by
  cases cell <;> rfl

/-- What an instruction stands for when it accesses a cell: the symbol that a name denotes at its
place, or a parameter of the procedure that is entered. -/
inductive Context.Reaches (ctx : Context) (x : Emitted) (cell : Cell) (s : Symbol) : Prop where
  | name {u : Use} (horigin : x.origin = .use u) (hcell : u.cell = cell)
      (haccesses : ctx.Accesses u s)
  | parameter {r : Routine} {k : Nat} (horigin : x.origin = .parameter k)
      (hcell : cell = .frame 0 k) (howner : ctx.routines.head? = some r)
      (hparam : r.params[k]? = some (s.name, s.ty))

/-- Every access to storage reaches the symbol that it stands for. -/
structure Program.Addressed (p : Program) : Prop where
  /-- The symbol is stored in the cell that the instruction accesses. -/
  reaches : ∀ (a : Nat) (x : Emitted) (cell : Cell), p.code[a]? = some x → x.op.cell? = some cell →
    ∃ s, (p.contextAt a).Reaches x cell s ∧ (p.contextAt a).Holds cell s
  /-- The level of a frame is that of a procedure around the instruction, and the offset is smaller
  than the frame which that procedure makes. -/
  frame : ∀ (a : Nat) (x : Emitted) (level offset : Nat), p.code[a]? = some x →
    x.op.cell? = some (.frame level offset) →
      ∃ (e : Nat) (r : Routine), (enclosing (erase p.code) a)[level]? = some e ∧
        p.code[e]? = some r.entry ∧ (p.routinesAt a)[level]? = some r ∧ offset < r.frame.slots
  /-- No two symbols of a scope share a slot. -/
  slots : ∀ scope : Scope,
    scope = p.globals ∨ (∃ (e : Nat) (r : Routine), p.code[e]? = some r.entry ∧ scope = r.frame) →
      (scope.entries.filter (·.kind.hasStorage)).Pairwise fun s t => s.offset ≠ t.offset

theorem Emitted.Effect.exists_reaches {ctx : Context} {x : Emitted} {σ σ' : List Ty} {cell : Cell}
    (h : x.Effect ctx σ σ') (hcell : x.op.cell? = some cell) :
    ∃ s, ctx.Reaches x cell s ∧ ctx.Holds cell s := by
  cases h with
  | moves h =>
    cases h with
    | @load u s _ haccesses =>
      have hcell : u.cell = cell := Option.some.inj ((Cell.cell?_loadOp u.cell).symm.trans hcell)
      exact ⟨s, .name rfl hcell haccesses, hcell ▸ haccesses.cell⟩
    | @store u s _ haccesses =>
      have hcell : u.cell = cell := Option.some.inj ((Cell.cell?_storeOp u.cell).symm.trans hcell)
      exact ⟨s, .name rfl hcell haccesses, hcell ▸ haccesses.cell⟩
    | @call callee arguments signatures types harguments haccepts =>
      obtain ⟨target, htarget, -⟩ := haccepts
      simp [Emitted.op, Instruction.plain, Use.callOp, htarget, Op.cell?] at hcell
    | _ => cases hcell
  | @argument r k s _ howner hparam hholds =>
    cases hcell
    exact ⟨s, .parameter rfl rfl howner hparam, hholds⟩
  | _ => cases hcell

namespace Program

variable {p : Program} {τ : Nat → List Ty}

theorem Effects.exists_frame (h : p.Effects τ) {a : Nat} {x : Emitted} {level offset : Nat}
    (hx : p.code[a]? = some x) (hcell : x.op.cell? = some (.frame level offset)) :
    ∃ (e : Nat) (r : Routine), (enclosing (erase p.code) a)[level]? = some e ∧
      p.code[e]? = some r.entry ∧ (p.routinesAt a)[level]? = some r ∧ offset < r.frame.slots := by
  obtain ⟨s, -, hholds⟩ := (h a x hx).exists_reaches hcell
  cases hholds with
  | frame hlevel hstores hlt =>
    rw [Context.frames, List.getElem?_map] at hlevel
    obtain ⟨r, hr, rfl⟩ := Option.map_eq_some_iff.mp hlevel
    obtain ⟨e, he, hentry⟩ := h.exists_entry hx hr
    exact ⟨e, r, he, hentry, hr, hlt⟩

theorem Effects.addressed (h : p.Effects τ) : p.Addressed where
  reaches a x _ hx hcell := (h a x hx).exists_reaches hcell
  frame _ _ _ _ hx hcell := h.exists_frame hx hcell
  slots scope hscope := by
    rcases hscope with rfl | ⟨e, r, he, rfl⟩
    · exact p.globals_laidOut.1.pairwise_offset_ne
    · obtain ⟨-, hframe, -⟩ := (h e r.entry he).eq_entry rfl
      exact hframe.laidOut.pairwise_offset_ne

end Program

/-- The addresses of code that was compiled without errors are exact. -/
theorem lexical_addressing_exact {source file : String} {minDistance : Nat} {c : Compilation}
    (hcompile : compile source file minDistance = .ok c) (hcount : c.errorCount = 0) :
    ∃ p : Program, parse source file = .ok p ∧
      c.listing = header p.globals p.externals ++ erase p.code ∧ p.Addressed := by
  obtain ⟨p, hparse, hp⟩ := exists_compilesTo hcompile hcount
  obtain ⟨τ, -, heffects⟩ := hp.exists_effects
  exact ⟨p, hparse, hp.listing, heffects.addressed⟩

theorem lexical_addressing_exact_sampleText :
    ∃ c, compile sampleText "sample" 2 = .ok c ∧ c.errorCount = 0 ∧
      ∃ p : Program, parse sampleText "sample" = .ok p ∧
        c.listing = header p.globals p.externals ++ erase p.code ∧ p.Addressed := by
  obtain ⟨c, hcompile, hcount⟩ := sampleText_accepted
  exact ⟨c, hcompile, hcount, lexical_addressing_exact hcompile hcount⟩

end SlotLang
