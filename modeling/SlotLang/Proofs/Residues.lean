import Mathlib.Data.List.Forall2
import Mathlib.Data.List.TakeWhile
import SlotLang.Proofs.Footprint
import SlotLang.Proofs.Outline
import SlotLang.Proofs.ProgramCode
import SlotLang.Proofs.TokenMaps

/-!
# What a closed procedure leaves behind

The scope of a procedure is gone when the procedure is closed, but not all that happened in it.  Its
name stays in the scope around it, its signature and those of the procedures inside it stay under
labels that start with its name, the labels drawn for its code are used up, and the arrays and structs
declared in it stay registered.  All this is its residue.

`Env.Carries` relates an environment to one in which there is a residue in addition, and `Echoes` two
phrases of which the second does, with the residue, what the first does without it.  The phrases are
copies of each other that may stand at different places of a text.
-/

namespace SlotLang

open Lowering Aggregate

/-! ## Trees without places -/

/-- Takes the places away from tokens. -/
def unplaced : TokenMap where
  token t := { t with start := .start "", stop := .start "" }
  text t := { t with start := .start "", stop := .start "" }
  kind_token _ := rfl
  text_eq _ _ := rfl

@[simp] theorem kind_unplaced (t : Token) : (unplaced.token t).kind = t.kind := rfl

@[simp] theorem value_unplaced (t : Token) : (unplaced.token t).value = t.value := rfl

@[simp] theorem text_unplaced (t : Token) : unplaced.text t = unplaced.token t := rfl

@[simp] theorem Terminal.mapText_unplaced (t : Terminal) : t.mapText unplaced = t.map unplaced := by
  cases t <;> rfl

@[simp] theorem Terminal.value?_unplaced (t : Terminal) : (t.map unplaced).value? = t.value? := by
  cases t <;> rfl

@[simp] theorem Terminal.valueD_unplaced (t : Terminal) : (t.map unplaced).valueD = t.valueD := by
  cases t <;> rfl

/-! ## Labels -/

/-- The label with its number, if it has one, moved up. -/
def Label.shift (k : Nat) : Label → Label
  | fresh number => fresh (number + k)
  | named text => named text

def Op.shift (k : Nat) : Op → Op
  | jump label => jump (label.shift k)
  | jumpUnless label => jumpUnless (label.shift k)
  | op => op

/-- The instruction with the numbers of its labels moved up. -/
def Instruction.shift (k : Nat) (i : Instruction) : Instruction :=
  ⟨i.label.map (Label.shift k), i.op.shift k⟩

theorem Label.shift_zero (label : Label) : label.shift 0 = label := by
  cases label <;> rfl

theorem map_shift_zero (code : List Instruction) : code.map (Instruction.shift 0) = code := by
  have hone : ∀ i : Instruction, i.shift 0 = i := by
    rintro ⟨label, op⟩
    have hlabel : label.map (Label.shift 0) = label := by
      cases label <;> simp [Label.shift_zero]
    have hop : op.shift 0 = op := by
      cases op <;> simp [Op.shift, Label.shift_zero]
    rw [Instruction.shift, hlabel, hop]
  exact (List.map_congr_left fun i _ => hone i).trans (List.map_id code)

/-! ## Registers -/

/-- What is registered once and for all, in whatever scope it is declared. -/
inductive Register where
  | array (key : ArrayKey)
  | struct (name : String)
  deriving DecidableEq

def Register.Known (env : Env) : Register → Prop
  | array key => env.arrays.contains key = true
  | struct name => env.structs.isDefined name = true

def Declarator.registers (ty : DeclaredTy) (d : Declarator) : List Register :=
  if d.bounds.isEmpty then [] else [.array ⟨d.name.valueD, ty.elementTy, d.bounds.length⟩]

def Declaration.registers : Declaration → List Register
  | const _ _ _ => []
  | vars ty declarators _ => declarators.toList.flatMap (Declarator.registers ty.declared)
  | structDef _ name _ _ _ _ => [.struct name.valueD]

mutual

def Stmt.registers : Stmt → List Register
  | .missing _ | .broken _ | .dangling _ _ | .assign _ _ _ _ | .choose _ _ _ _ _ _ _ _
  | .call _ _ _ _ _ | .read _ _ _ | .write _ _ _ => []
  | .branch _ _ body | .whileLoop _ _ body | .forLoop _ _ _ _ _ _ _ _ body => body.registers
  | .branchElse _ _ body _ alternative => body.registers ++ alternative.registers
  | .switch _ _ _ _ _ cases _ fallbackBody _ =>
      casesRegisters cases ++ stmtsRegisters fallbackBody
  | .block _ items _ => blockRegisters items

def stmtsRegisters : List Stmt → List Register
  | [] => []
  | s :: more => s.registers ++ stmtsRegisters more

def casesRegisters : List Case → List Register
  | [] => []
  | .mk _ _ _ body :: more => stmtsRegisters body ++ casesRegisters more

def blockRegisters : List BlockItem → List Register
  | [] => []
  | item :: more => item.registers ++ blockRegisters more

def BlockItem.registers : BlockItem → List Register
  | .declaration d => d.registers
  | .statement s => s.registers
  | .skipped _ => []

end

mutual

/-- The arrays and structs that are declared in a procedure, at any depth. -/
def Procedure.registers : Procedure → List Register
  | .mk _ _ _ _ _ _ body _ => bodyRegisters body

def bodyRegisters : List BodyItem → List Register
  | [] => []
  | item :: more => item.registers ++ bodyRegisters more

def BodyItem.registers : BodyItem → List Register
  | .declaration d => d.registers
  | .statement s => s.registers
  | .nested p => p.registers
  | .skipped _ => []

end

def ProgramItem.registers : ProgramItem → List Register
  | declaration d => d.registers
  | procedure p => p.registers
  | external _ | skipped _ => []

/-- Between the two environments exactly these registers were made, and all of them are new. -/
structure Env.Adds (rs : List Register) (env env' : Env) : Prop where
  known : ∀ r, r.Known env' ↔ r.Known env ∨ r ∈ rs
  fresh : ∀ r ∈ rs, ¬r.Known env
  kept : ∀ name d, env.structs.get? name = some d → env'.structs.get? name = some d

namespace Env.Adds

variable {env env₁ env₂ : Env} {first second : List Register}

theorem quiet (harrays : env₁.arrays = env.arrays) (hstructs : env₁.structs = env.structs) :
    env.Adds [] env₁ where
  known r := by cases r <;> simp [Register.Known, harrays, hstructs]
  fresh := by simp
  kept name d h := by rwa [hstructs]

theorem trans (h₁ : env.Adds first env₁) (h₂ : env₁.Adds second env₂) :
    env.Adds (first ++ second) env₂ where
  known r := by rw [h₂.known, h₁.known, List.mem_append, or_assoc]
  fresh r hr := by
    rcases List.mem_append.mp hr with hr | hr
    · exact h₁.fresh r hr
    · exact fun hknown => h₂.fresh r hr ((h₁.known r).mpr (.inl hknown))
  kept name d h := h₂.kept name d (h₁.kept name d h)

end Env.Adds

/-! ## Residues -/

/-- The part of a label in front of the first separator. -/
def root (label : String) : String := String.ofList (label.toList.takeWhile (· ≠ '$'))

/-- What stands behind a separator is no part of the root. -/
theorem root_append {label : String} (h : '$' ∈ label.toList) (more : String) :
    root (label ++ more) = root label := by
  have hchars : ∀ s : List Char, '$' ∈ s →
      (s ++ more.toList).takeWhile (· ≠ '$') = s.takeWhile (· ≠ '$') := by
    intro s hs
    induction s with
    | nil => simp at hs
    | cons c s ih =>
      by_cases hc : c = '$'
      · simp [hc]
      · have hmem : '$' ∈ s := (List.mem_cons.mp hs).resolve_left (Ne.symm hc)
        simpa [hc] using ih hmem
  rw [root, root, String.toList_append, hchars _ h]

theorem root_joinNames (first : String) (names : List String) :
    root (ScopeStack.joinNames (first :: names)) = root first := by
  cases names with
  | nil => simp [ScopeStack.joinNames]
  | cons second names =>
    have hfirst : root (first ++ "$") = root first := by
      by_cases hdollar : '$' ∈ first.toList
      · exact root_append hdollar "$"
      · have hkept : ∀ c ∈ first.toList, decide (c ≠ '$') = true := by
          intro c hc
          simpa using fun heq : c = '$' => hdollar (heq ▸ hc)
        rw [root, root, String.toList_append, List.takeWhile_append_of_pos hkept,
          List.takeWhile_eq_self_iff.mpr hkept]
        simp
    rw [ScopeStack.joinNames, String.intercalate_cons_of_ne_nil (List.cons_ne_nil _ _),
      root_append (by simp), hfirst]

theorem root_eq_self {text : String} (h : '$' ∉ text.toList) : root text = text := by
  have hall : text.toList.takeWhile (· ≠ '$') = text.toList := by
    rw [List.takeWhile_eq_self_iff]
    intro c hc
    simpa using fun heq : c = '$' => h (heq ▸ hc)
  rw [root, hall, String.ofList_toList]

/-- The residue of a procedure, or of nothing at all. -/
structure Residue where
  name? : Option String
  registers : List Register
  /-- The number of labels drawn. -/
  labels : Nat
  word : ∀ name ∈ name?, IsProcedureName name

namespace Residue

def nothing : Residue := ⟨none, [], 0, by simp⟩

variable (ρ : Residue)

/-- The name, and the labels below it. -/
def hides (text : String) : Bool := ρ.name? = some (root text)

@[simp] theorem hides_nothing (text : String) : nothing.hides text = false := by
  simp [hides, nothing]

/-- A composed name that starts with a visible name is visible. -/
theorem hides_append {head rest : String} (hhead : ρ.hides head = false)
    (hrest : ∀ c ∈ rest.toList.head?, c = '[' ∨ c = '.') : ρ.hides (head ++ rest) = false := by
  simp only [hides, decide_eq_false_iff_not] at hhead ⊢
  intro hname
  have hword := ρ.word _ hname
  by_cases hdollar : '$' ∈ head.toList
  · exact hhead (root_append hdollar rest ▸ hname)
  · cases htail : rest.toList with
    | nil =>
      have hempty : head ++ rest = head := String.toList_inj.mp (by simp [htail])
      exact hhead (hempty ▸ hname)
    | cons c chars =>
      have hmark := hrest c (by simp [htail])
      have hkept : ∀ d ∈ head.toList, decide (d ≠ '$') = true := by
        intro d hd
        simpa using fun heq : d = '$' => hdollar (heq ▸ hd)
      have hmem : c ∈ (root (head ++ rest)).toList := by
        have hc : c ≠ '$' := by rcases hmark with rfl | rfl <;> decide
        rw [root, String.toList_ofList, String.toList_append, htail,
          List.takeWhile_append_of_pos hkept]
        simp [hc]
      rcases hword with hempty | hword
      · simp [hempty] at hmem
      · rcases hmark with rfl | rfl
        · exact hword.not_mem (by decide) (by decide) hmem
        · exact hword.not_mem (by decide) (by decide) hmem

/-- No token of the outline is the name. -/
def Clears (o : Outline) : Prop := ∀ t ∈ o.tokens, ρ.hides t.value = false

section Clears

variable {ρ} {o o₁ o₂ : Outline}

@[simp] theorem clears_append : ρ.Clears (o₁ ++ o₂) ↔ ρ.Clears o₁ ∧ ρ.Clears o₂ := by
  simp [Clears, or_imp, forall_and]

@[simp] theorem clears_token {t : Token} : ρ.Clears (.token t) ↔ ρ.hides t.value = false := by
  simp [Clears]

@[simp] theorem clears_round : ρ.Clears (.round o₁ o₂) ↔ ρ.Clears o₁ ∧ ρ.Clears o₂ := by
  simp [Clears, Outline.tokens_round, or_imp, forall_and]

theorem clears_loop {α : Type} {body : α → Outline} {items : List α} :
    ρ.Clears (Outline.loop body items) ↔ ∀ a ∈ items, ρ.Clears (body a) := by
  induction items with
  | nil => simp [Outline.loop, Clears, Outline.tokens, Outline.leaves]
  | cons a items ih => simp [Outline.loop, ih]

theorem clears_nothing (o : Outline) : nothing.Clears o := fun t _ => hides_nothing t.value

end Clears

def shows (s : Symbol) : Bool := !ρ.hides s.name

end Residue

/-! ## Scopes with a residue -/

variable {ρ : Residue}

/-- The scopes have the same symbols, apart from those that the residue hides. -/
structure Scope.Carries (ρ : Residue) (scope scope' : Scope) : Prop where
  slots : scope'.slots = scope.slots
  entries : scope'.entries.filter ρ.shows = scope.entries.filter ρ.shows

namespace Scope.Carries

variable {scope scope' : Scope}

theorem refl (scope : Scope) : scope.Carries ρ scope := ⟨rfl, rfl⟩

theorem push (h : scope.Carries ρ scope') (s : Symbol) :
    (scope.push s).Carries ρ (scope'.push s) where
  slots := by simp [Scope.push, h.slots]
  entries := by simp [Scope.push, List.filter_cons, h.entries]

theorem lookup (h : scope.Carries ρ scope') {name : String} (hname : ρ.hides name = false) :
    scope'.lookup name = scope.lookup name := by
  have hfound : ∀ entries : List Symbol, entries.find? (fun s => s.name = name) =
      (entries.filter ρ.shows).find? fun s => s.name = name := by
    intro entries
    rw [List.find?_filter]
    congr 1
    funext s
    by_cases hs : s.name = name <;> simp [Residue.shows, hs, hname]
  rw [Scope.lookup, Scope.lookup, hfound, h.entries, ← hfound]

end Scope.Carries

structure ScopeStack.Carries (ρ : Residue) (st st' : ScopeStack) : Prop where
  scopes : List.Forall₂ (Scope.Carries ρ) st.scopes st'.scopes
  externals : st'.externals = st.externals
  procedures : st'.openProcedures = st.openProcedures
  clear : ∀ name ∈ st.openProcedures, ρ.hides name = false

namespace ScopeStack.Carries

variable {st st' : ScopeStack}

/-- Without a residue nothing is different. -/
theorem eq (h : st.Carries .nothing st') : st' = st := by
  have hscope : ∀ scope scope' : Scope, scope.Carries .nothing scope' → scope = scope' := by
    intro scope scope' hcarries
    refine Scope.ext ?_
    have hall : Residue.nothing.shows = fun _ => true := by
      funext s
      simp [Residue.shows]
    have hentries := hcarries.entries.symm
    rwa [hall, List.filter_true, List.filter_true] at hentries
  have hscopes : st.scopes = st'.scopes := by
    have hsame := h.scopes.imp hscope
    rwa [List.forall₂_eq_eq_eq] at hsame
  obtain ⟨scopes, externals, procedures⟩ := st
  obtain ⟨scopes', externals', procedures'⟩ := st'
  rw [ScopeStack.mk.injEq]
  exact ⟨hscopes.symm, h.externals, h.procedures⟩

theorem depth_eq (h : st.Carries ρ st') : st'.depth = st.depth := h.scopes.length_eq.symm

theorem dataLevel_eq (h : st.Carries ρ st') (s : Symbol) : st'.dataLevel s = st.dataLevel s := by
  rw [dataLevel, dataLevel, h.depth_eq]

theorem resolve_eq (h : st.Carries ρ st') {name : String} (hname : ρ.hides name = false) :
    st'.resolve name = st.resolve name := by
  have hopen : ∀ {scopes scopes' : List Scope}, List.Forall₂ (Scope.Carries ρ) scopes scopes' →
      scopes'.findSome? (fun scope => scope.lookup name) =
        scopes.findSome? fun scope => scope.lookup name := by
    intro scopes scopes' hscopes
    induction hscopes with
    | nil => rfl
    | cons hscope _ ih => rw [List.findSome?_cons, List.findSome?_cons, hscope.lookup hname, ih]
  rw [resolve, resolve, hopen h.scopes, h.externals]

theorem slotCount_head {scopes scopes' : List Scope}
    (h : List.Forall₂ (Scope.Carries ρ) scopes scopes') :
    slotCount scopes'.head? = slotCount scopes.head? := by
  cases h with
  | nil => rfl
  | cons hscope _ => exact hscope.slots

theorem slotCount_current (h : st.Carries ρ st') :
    slotCount st'.current? = slotCount st.current? := slotCount_head h.scopes

theorem slotCount_global (h : st.Carries ρ st') :
    slotCount st'.global? = slotCount st.global? := by
  rw [global?, global?, List.getLast?_eq_head?_reverse, List.getLast?_eq_head?_reverse]
  exact slotCount_head (List.forall₂_reverse_iff.mpr h.scopes)

theorem openScope (h : st.Carries ρ st') : st.openScope.Carries ρ st'.openScope :=
  { h with scopes := .cons (.refl _) h.scopes }

theorem ensureScope (h : st.Carries ρ st') : st.ensureScope.Carries ρ st'.ensureScope := by
  have hempty : st'.scopes.isEmpty = st.scopes.isEmpty := by
    rw [Bool.eq_iff_iff, List.isEmpty_iff_length_eq_zero, List.isEmpty_iff_length_eq_zero,
      h.scopes.length_eq]
  unfold ScopeStack.ensureScope
  rw [hempty]
  split
  · exact h.openScope
  · exact h

theorem pushCurrent (h : st.Carries ρ st') (s : Symbol) :
    (st.pushCurrent s).Carries ρ (st'.pushCurrent s) := by
  obtain ⟨scopes, externals, procedures⟩ := st
  obtain ⟨scopes', externals', procedures'⟩ := st'
  obtain ⟨hscopes, hexternals, hprocedures, hclear⟩ := h
  cases hscopes with
  | nil => exact ⟨.nil, hexternals, hprocedures, hclear⟩
  | cons hscope houter => exact ⟨.cons (hscope.push s) houter, hexternals, hprocedures, hclear⟩

theorem pushLast {scopes scopes' : List Scope} (h : List.Forall₂ (Scope.Carries ρ) scopes scopes')
    (s : Symbol) :
    List.Forall₂ (Scope.Carries ρ) (ScopeStack.pushLast s scopes)
      (ScopeStack.pushLast s scopes') := by
  induction h with
  | nil => exact .nil
  | cons hscope houter ih =>
    cases houter with
    | nil => exact .cons (hscope.push s) .nil
    | cons hnext houter => exact .cons hscope ih

theorem enterProcedure (h : st.Carries ρ st') {name : String} (hname : ρ.hides name = false) :
    (st'.enterProcedure name).1 = (st.enterProcedure name).1 ∧
      (st.enterProcedure name).2.Carries ρ (st'.enterProcedure name).2 := by
  have hlabel : st'.labelFor name = st.labelFor name := by
    rw [labelFor, labelFor, h.procedures]
  refine ⟨hlabel, .cons (.refl _) h.scopes, h.externals, ?_, ?_⟩
  · exact congrArg (name :: ·) h.procedures
  · exact List.forall_mem_cons.mpr ⟨hname, h.clear⟩

theorem exitProcedure (h : st.Carries ρ st') :
    slotCount st'.exitProcedure.1 = slotCount st.exitProcedure.1 ∧
      st.exitProcedure.2.Carries ρ st'.exitProcedure.2 := by
  refine ⟨h.slotCount_current, ?_, h.externals, congrArg List.tail h.procedures, ?_⟩
  · simpa [ScopeStack.exitProcedure, closeScope] using List.forall₂_drop 1 h.scopes
  · exact fun name hname => h.clear name (List.mem_of_mem_tail hname)

end ScopeStack.Carries

/-- The declaration gives the same symbol with and without a residue. -/
def Residue.Allows {α : Type} (ρ : Residue) (change : ScopeStack → α × ScopeStack) : Prop :=
  ∀ st st', st.Carries ρ st' →
    (change st').1 = (change st).1 ∧ (change st).2.Carries ρ (change st').2

namespace Residue

theorem allows_declareLocal (name : String) (kind : SymbolKind) (ty : Ty) :
    ρ.Allows fun st => st.declareLocal name kind ty := by
  intro st st' h
  have hensured := h.ensureScope
  simp only [ScopeStack.declareLocal, hensured.depth_eq, hensured.slotCount_current]
  exact ⟨trivial, hensured.pushCurrent _⟩

theorem allows_declareGlobal (name : String) (kind : SymbolKind) (ty : Ty) :
    ρ.Allows fun st => st.declareGlobal name kind ty := by
  intro st st' h
  have hensured := h.ensureScope
  simp only [ScopeStack.declareGlobal, hensured.slotCount_global]
  exact ⟨trivial, { hensured with scopes := ScopeStack.Carries.pushLast hensured.scopes _ }⟩

theorem allows_declareStorage (name : String) (kind : SymbolKind) (ty : Ty) :
    ρ.Allows fun st => st.declareStorage name kind ty := by
  intro st st' h
  simp only [ScopeStack.declareStorage, h.depth_eq]
  split
  · exact allows_declareGlobal name kind ty st st' h
  · exact allows_declareLocal name kind ty st st' h

theorem allows_declareProcedure (name : String) :
    ρ.Allows fun st => st.declareProcedure name := by
  intro st st' h
  have hensured := h.ensureScope
  simp only [ScopeStack.declareProcedure, hensured.depth_eq]
  exact ⟨trivial, hensured.pushCurrent _⟩

theorem allows_declareExternal (name : String) (kind : SymbolKind) (ty : Ty) :
    ρ.Allows fun st => st.declareExternal name kind ty := by
  intro st st' h
  refine ⟨rfl, { h with externals := ?_ }⟩
  exact congrArg (Scope.push · _) h.externals

theorem carries_declareAll {st st' : ScopeStack} (h : st.Carries ρ st') (members : List Member) :
    (st.declareAll members).Carries ρ (st'.declareAll members) := by
  induction members generalizing st st' with
  | nil => exact h
  | cons m members ih => exact ih (allows_declareStorage m.path m.kind m.ty st st' h).2

end Residue

/-! ## Environments with a residue -/

/-- The second environment has the residue in addition.  What the first one defines later may not
clash with it. -/
structure Env.Carries (ρ : Residue) (env env' : Env) : Prop where
  scopes : env.scopes.Carries ρ env'.scopes
  structs : ∀ name, .struct name ∉ ρ.registers → env'.structs.get? name = env.structs.get? name
  undefined : ∀ name, .struct name ∈ ρ.registers → env.structs.get? name = none
  arrays : ∀ key, .array key ∉ ρ.registers → env'.arrays.contains key = env.arrays.contains key
  signatures : ∀ label, ρ.hides label = false →
    env'.signatures.get? label = env.signatures.get? label
  nextLabel : env'.nextLabel = env.nextLabel + ρ.labels

/-! ## Phrases beside a residue -/

/-- Both outcomes are faultless, and they are the same up to the residue. -/
structure Outcome.Agrees {α : Type} (ρ : Residue) (rs : List Register) (f : α → α) (env : Env)
    (o o' : Outcome α) : Prop where
  faultless : Faultless o'.events
  adds : env.Adds rs o.env
  value : o'.value = f o.value
  code : o'.code = o.code.map (Instruction.shift ρ.labels)
  env : o.env.Carries ρ o'.env

structure Outcome.Echoes {α : Type} (ρ : Residue) (rs : List Register) (f : α → α) (env : Env)
    (o o' : Outcome α) : Prop where
  agrees : Faultless o.events → rs.Disjoint ρ.registers → o.Agrees ρ rs f env o'
  reflects : ρ.registers = [] → Faultless o'.events → Faultless o.events

/-- If the first phrase is faultless, then it makes the registers, and as long as they do not clash
with the residue the second phrase does the same beside it.  The function says what becomes of the
value.  A residue without registers brings no fault to light and hides none. -/
def Echoes {α : Type} (ρ : Residue) (rs : List Register) (f : α → α) (x x' : Lowering α) : Prop :=
  ∀ env env' : Env, env.Carries ρ env' → (x env).Echoes ρ rs f env (x' env')

namespace Echoes

variable {α β : Type} {f : α → α} {g : β → β} {rs rs' : List Register} {x x' : Lowering α}
  {h h' : α → Lowering β}

theorem append_of {p : α → Prop} (hx : Echoes ρ rs f x x')
    (hp : ∀ env, x.Ensures env fun a _ _ => p a)
    (hh : ∀ a, p a → Echoes ρ rs' g (h a) (h' (f a))) :
    Echoes ρ (rs ++ rs') g (x >>= h) (x' >>= h') := by
  intro env env' henv
  have hfirst := hx env env' henv
  have hsecond : Faultless (x env).events → rs.Disjoint ρ.registers →
      (h (x env).value (x env).env).Echoes ρ rs' g (x env).env
        (h' (x' env').value (x' env').env) := by
    intro hfaultless hdisjoint
    have hagrees := hfirst.agrees hfaultless hdisjoint
    rw [hagrees.value]
    exact hh _ (hp env hfaultless) _ _ hagrees.env
  constructor
  · intro hfaultless hdisjoint
    rw [bind_apply, faultless_append] at hfaultless
    obtain ⟨hdisjoint₁, hdisjoint₂⟩ := List.disjoint_append_left.mp hdisjoint
    have h₁ := hfirst.agrees hfaultless.1 hdisjoint₁
    have h₂ := (hsecond hfaultless.1 hdisjoint₁).agrees hfaultless.2 hdisjoint₂
    refine ⟨?_, h₁.adds.trans h₂.adds, h₂.value, ?_, h₂.env⟩
    · rw [bind_apply, faultless_append]
      exact ⟨h₁.faultless, h₂.faultless⟩
    · rw [bind_apply, bind_apply, List.map_append, h₁.code, h₂.code]
  · intro hnone hfaultless
    rw [bind_apply, faultless_append] at hfaultless ⊢
    have hdisjoint : rs.Disjoint ρ.registers := by simp [hnone]
    have h₁ := hfirst.reflects hnone hfaultless.1
    exact ⟨h₁, (hsecond h₁ hdisjoint).reflects hnone hfaultless.2⟩

theorem append (hx : Echoes ρ rs f x x') (hh : ∀ a, Echoes ρ rs' g (h a) (h' (f a))) :
    Echoes ρ (rs ++ rs') g (x >>= h) (x' >>= h') :=
  hx.append_of (p := fun _ => True) (by simp) fun a _ => hh a

/-- A phrase that registers nothing, and another one behind it. -/
theorem bind (hx : Echoes ρ [] f x x') (hh : ∀ a, Echoes ρ rs g (h a) (h' (f a))) :
    Echoes ρ rs g (x >>= h) (x' >>= h') := hx.append hh

theorem bind_of {p : α → Prop} (hx : Echoes ρ [] f x x')
    (hp : ∀ env, x.Ensures env fun a _ _ => p a)
    (hh : ∀ a, p a → Echoes ρ rs g (h a) (h' (f a))) :
    Echoes ρ rs g (x >>= h) (x' >>= h') := hx.append_of hp hh

/-- A phrase, and another one behind it that registers nothing. -/
theorem andThen (hx : Echoes ρ rs f x x') (hh : ∀ a, Echoes ρ [] g (h a) (h' (f a))) :
    Echoes ρ rs g (x >>= h) (x' >>= h') := by
  have happend := hx.append hh
  rwa [List.append_nil] at happend

theorem env_bind {h h' : Env → Lowering β}
    (hh : ∀ env env', env.Carries ρ env' → Echoes ρ rs g (h env) (h' env')) :
    Echoes ρ rs g (Lowering.env >>= h) (Lowering.env >>= h') :=
  fun env env' henv => hh env env' henv env env' henv

theorem of_silent (hevents : ∀ env, Faultless (x env).events)
    (hagrees : ∀ env env', env.Carries ρ env' → (x env).Agrees ρ rs f env (x' env')) :
    Echoes ρ rs f x x' :=
  fun env env' henv => ⟨fun _ _ => hagrees env env' henv, fun _ _ => hevents env⟩

/-- After a fault nothing needs to agree. -/
theorem of_faulty (hx : ∀ env, ¬Faultless (x env).events)
    (hx' : ρ.registers = [] → ∀ env, ¬Faultless (x' env).events) : Echoes ρ rs f x x' :=
  fun env env' _ => ⟨fun h => absurd h (hx env), fun hnone h => absurd h (hx' hnone env')⟩

theorem pure (f : α → α) (a : α) : Echoes ρ [] f (Pure.pure a) (Pure.pure (f a)) :=
  .of_silent (fun _ => faultless_nil) fun _ _ henv =>
    ⟨faultless_nil, .quiet rfl rfl, rfl, rfl, henv⟩

theorem done (a : α) : Echoes ρ [] id (Pure.pure a) (Pure.pure a) := .pure id a

theorem discard (hx : Echoes ρ rs f x x') :
    Echoes ρ rs id (Functor.discard x) (Functor.discard x') := hx.andThen fun _ => .done _

theorem withScopes {change : ScopeStack → α × ScopeStack} (h : ρ.Allows change) :
    Echoes ρ [] id (Lowering.withScopes change) (Lowering.withScopes change) := by
  refine .of_silent (fun _ => faultless_nil) fun env env' henv => ?_
  obtain ⟨hvalue, hscopes⟩ := h env.scopes env'.scopes henv.scopes
  exact ⟨faultless_nil, .quiet rfl rfl, hvalue, rfl, { henv with scopes := hscopes }⟩

theorem freshLabel :
    Echoes ρ [] (Label.shift ρ.labels) Lowering.freshLabel Lowering.freshLabel := by
  refine .of_silent (fun _ => faultless_nil) fun env env' henv => ?_
  refine ⟨faultless_nil, .quiet rfl rfl, ?_, rfl, { henv with nextLabel := ?_ }⟩
  · exact congrArg Label.fresh henv.nextLabel
  · simp only [Lowering.freshLabel, henv.nextLabel]
    omega

theorem emitAll (code : List Instruction) :
    Echoes ρ [] id (Lowering.emitAll code)
      (Lowering.emitAll (code.map (Instruction.shift ρ.labels))) :=
  .of_silent (fun _ => faultless_nil) fun _ _ henv =>
    ⟨faultless_nil, .quiet rfl rfl, rfl, rfl, henv⟩

theorem emit (op : Op) :
    Echoes ρ [] id (Lowering.emit op) (Lowering.emit (op.shift ρ.labels)) := .emitAll _

theorem land (label : Label) :
    Echoes ρ [] id (Lowering.land label) (Lowering.land (label.shift ρ.labels)) := .emitAll _

theorem captured (hx : Echoes ρ rs f x x') :
    Echoes ρ rs (fun found => (f found.1, found.2.map (Instruction.shift ρ.labels)))
      (Lowering.captured x) (Lowering.captured x') := by
  intro env env' henv
  have hechoes := hx env env' henv
  refine ⟨fun hfaultless hdisjoint => ?_, hechoes.reflects⟩
  have hagrees := hechoes.agrees hfaultless hdisjoint
  exact ⟨hagrees.faultless, hagrees.adds, Prod.ext hagrees.value hagrees.code, rfl, hagrees.env⟩

theorem consume (token token' : Token) :
    Echoes ρ [] id (Lowering.consume token) (Lowering.consume token') := by
  refine .of_silent (fun _ => by simp [Lowering.consume, Event.isFault]) fun env env' henv => ?_
  refine ⟨?_, .quiet rfl rfl, rfl, rfl, { henv with }⟩
  simp [Lowering.consume, Event.isFault]

theorem refuseBefore (next next' : Token) (fault fault' : Fault) :
    Echoes ρ rs id (Lowering.refuseBefore next fault) (Lowering.refuseBefore next' fault') :=
  .of_faulty (by simp [Lowering.refuseBefore, Event.isFault])
    (by simp [Lowering.refuseBefore, Event.isFault])

theorem refuse (fault fault' : Fault) :
    Echoes ρ rs id (Lowering.refuse fault) (Lowering.refuse fault') :=
  .of_faulty (by simp [Lowering.refuse, Event.isFault]) (by simp [Lowering.refuse, Event.isFault])

/-- Whatever follows on a refusal. -/
theorem refuse_bind (fault fault' : Fault) (y y' : Unit → Lowering β) :
    Echoes ρ rs g (Lowering.refuse fault >>= y) (Lowering.refuse fault' >>= y') :=
  .of_faulty (by simp [Lowering.refuse, Event.isFault]) (by simp [Lowering.refuse, Event.isFault])

theorem skip (production : String) (token token' : Token) :
    Echoes ρ [] id (Lowering.skip production token) (Lowering.skip production token') :=
  .bind (.refuseBefore _ _ _ _) fun _ => .consume _ _

theorem check (rule : Except Fault α) :
    Echoes ρ [] id (Lowering.check rule) (Lowering.check rule) := by
  cases rule with
  | ok a => exact .done ()
  | error fault => exact .refuse fault fault

theorem terminal (t : Terminal) : Echoes ρ [] id t.lower (t.map unplaced).lower := by
  cases t with
  | read token => exact .consume _ _
  | missing kind next => exact .refuseBefore _ _ _ _

theorem resolve {name : String} (hname : ρ.hides name = false) :
    Echoes ρ [] id (Lowering.resolve name) (Lowering.resolve name) := by
  refine .env_bind fun env env' henv => ?_
  dsimp only
  rw [henv.scopes.resolve_eq hname]
  split
  · exact .refuse_bind _ _ _ _
  · exact .done _

/-- An access to the cell of a symbol, at the level at which it is found. -/
theorem access {op : Nat → Op} (hop : ∀ level, (op level).shift ρ.labels = op level)
    (target : Resolved) :
    Echoes ρ [] id (do Lowering.emit (op ((← Lowering.env).scopes.dataLevel target.symbol)))
      (do Lowering.emit (op ((← Lowering.env).scopes.dataLevel target.symbol))) := by
  refine .env_bind fun env env' henv => ?_
  have hemit := Echoes.emit (ρ := ρ) (op (env.scopes.dataLevel target.symbol))
  rw [hop] at hemit
  rwa [henv.scopes.dataLevel_eq]

theorem load (target : Resolved) :
    Echoes ρ [] id (Lowering.load target) (Lowering.load target) := by
  refine .access (fun level => ?_) target
  rw [Resolved.loadOp_eq]
  cases target.cell level <;> rfl

theorem store (target : Resolved) :
    Echoes ρ [] id (Lowering.store target) (Lowering.store target) := by
  refine .access (fun level => ?_) target
  rw [Resolved.storeOp_eq]
  cases target.cell level <;> rfl

end Echoes

end SlotLang
