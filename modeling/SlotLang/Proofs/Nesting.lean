import Mathlib.Data.List.Basic
import SlotLang.Proofs.Action

/-!
# The nesting of procedures in a listing

The code of a procedure goes from the instruction that makes its frame to the instruction that
returns from it, and the code of a nested procedure stands inside that of the outer one.  So the
procedures around an instruction can be read off a listing by counting: one is opened by every
`Enter`, and the innermost is closed by every `Ret`.

The second half follows the nesting through the code of a resolved program, where the instruction
that opens a procedure has the routine for its origin.
-/

namespace SlotLang

open Emitted

def Op.isEnter : Op → Bool
  | .enter _ => true
  | _ => false

/-- The entries of the procedures that are open behind a piece of code, the innermost first, if those
in front of it are open and the code starts at the address `a`. -/
def openEntries (opened : List Nat) (a : Nat) : List Instruction → List Nat
  | [] => opened
  | i :: rest =>
      let entered := if i.op.isEnter then a :: opened else opened
      openEntries (if i.op = .ret then entered.tail else entered) (a + 1) rest

/-- The addresses of the entries of all procedures around an instruction, the innermost first.  The
first and the last instruction of a procedure belong to it. -/
def enclosing (listing : List Instruction) (a : Nat) : List Nat :=
  let opened := openEntries [] 0 (listing.take a)
  if listing[a]?.any (·.op.isEnter) then a :: opened else opened

/-- The entry of the procedure that an instruction belongs to, if it belongs to one. -/
def owner (listing : List Instruction) (a : Nat) : Option Nat := (enclosing listing a).head?

theorem lt_of_mem_openEntries {opened : List Nat} {a e : Nat} {code : List Instruction}
    (h : e ∈ openEntries opened a code) : e ∈ opened ∨ e < a + code.length := by
  induction code generalizing opened a with
  | nil => exact .inl h
  | cons i code ih =>
    rw [List.length_cons, Nat.add_comm code.length, ← Nat.add_assoc]
    rcases ih h with hopened | hlt
    · have hentered : e ∈ if i.op.isEnter then a :: opened else opened := by
        split at hopened
        · exact List.mem_of_mem_tail hopened
        · exact hopened
      split at hentered
      · rcases List.mem_cons.mp hentered with rfl | hmem
        · exact .inr (by omega)
        · exact .inl hmem
      · exact .inl hentered
    · exact .inr hlt

/-- An entry does not belong to the procedure in front of it. -/
theorem owner_ne_of_isEnter {listing : List Instruction} {a : Nat} {i : Instruction}
    (hi : listing[a + 1]? = some i) (henter : i.op.isEnter = true) :
    owner listing (a + 1) ≠ owner listing a := by
  intro heq
  have howner : owner listing (a + 1) = some (a + 1) := by
    simp [owner, enclosing, hi, henter]
  have hmem : a + 1 ∈ enclosing listing a := List.mem_of_head? (heq.symm.trans howner)
  have hopened : a + 1 ∈ openEntries [] 0 (listing.take a) := by
    unfold enclosing at hmem
    split at hmem
    · exact (List.mem_cons.mp hmem).resolve_left (by omega)
    · exact hmem
  rcases lt_of_mem_openEntries hopened with hnil | hlt
  · simp at hnil
  · rw [List.length_take] at hlt
    omega

/-! ## Nesting of routines -/

def Emitted.routine? (x : Emitted) : Option Routine :=
  match x.origin with
  | .routine r => some r
  | _ => none

/-- The routines around an instruction, each with its address, from those that are open in front of
it. -/
def entered (opened : List (Nat × Routine)) (a : Nat) (x : Emitted) : List (Nat × Routine) :=
  match x.routine? with
  | some r => (a, r) :: opened
  | none => opened

/-- The routines that are open behind an instruction. -/
def left (opened : List (Nat × Routine)) (a : Nat) (x : Emitted) : List (Nat × Routine) :=
  if x.op = .ret then (entered opened a x).tail else entered opened a x

/-- The routines that are open behind a piece of code. -/
def leaving (opened : List (Nat × Routine)) (a : Nat) : List Emitted → List (Nat × Routine)
  | [] => opened
  | x :: rest => leaving (left opened a x) (a + 1) rest

/-- The code leads from one state to another, where `P` says what an instruction does to the state if
these routines are around it. -/
def Threads {S : Type} (P : List (Nat × Routine) → Emitted → S → S → Prop) :
    List (Nat × Routine) → Nat → List Emitted → S → S → Prop
  | _, _, [], σ, σ' => σ = σ'
  | opened, a, x :: rest, σ, σ' =>
      ∃ ρ, P (entered opened a x) x σ ρ ∧ Threads P (left opened a x) (a + 1) rest ρ σ'

section

variable {S : Type} {P : List (Nat × Routine) → Emitted → S → S → Prop}
  {opened : List (Nat × Routine)} {a : Nat} {σ σ' : S}

theorem leaving_append (first second : List Emitted) :
    leaving opened a (first ++ second) =
      leaving (leaving opened a first) (a + first.length) second := by
  induction first generalizing opened a with
  | nil => rfl
  | cons x first ih =>
    simp only [List.cons_append, leaving, ih, List.length_cons]
    rw [Nat.add_assoc, Nat.add_comm 1]

theorem Threads.append {first second : List Emitted} {ρ : S}
    (h₁ : Threads P opened a first σ ρ)
    (h₂ : Threads P (leaving opened a first) (a + first.length) second ρ σ') :
    Threads P opened a (first ++ second) σ σ' := by
  induction first generalizing opened a σ with
  | nil =>
    cases h₁
    exact h₂
  | cons x first ih =>
    obtain ⟨ρ', hx, hrest⟩ := h₁
    rw [List.length_cons, Nat.add_comm first.length, ← Nat.add_assoc] at h₂
    exact ⟨ρ', hx, ih hrest h₂⟩

/-- The states along the code. -/
theorem Threads.exists_states {code : List Emitted} (h : Threads P opened a code σ σ') :
    ∃ τ : Nat → S, τ 0 = σ ∧ ∀ k x, code[k]? = some x →
      P (entered (leaving opened a (code.take k)) (a + k) x) x (τ k) (τ (k + 1)) := by
  induction code generalizing opened a σ with
  | nil => exact ⟨fun _ => σ, rfl, by simp⟩
  | cons y code ih =>
    obtain ⟨ρ, hy, hrest⟩ := h
    obtain ⟨τ, rfl, hcode⟩ := ih hrest
    refine ⟨fun k => k.casesOn σ τ, rfl, ?_⟩
    intro k x hx
    cases k with
    | zero =>
      cases hx
      exact hy
    | succ k =>
      have hstep := hcode k x hx
      rw [Nat.add_assoc, Nat.add_comm 1] at hstep
      exact hstep

/-- An instruction that belongs to the routines in front of it and leaves them open. -/
def Emitted.inner (x : Emitted) : Bool := x.routine?.isNone && x.op != .ret

theorem Emitted.inner_iff {x : Emitted} :
    x.inner = true ↔ x.routine? = none ∧ x.op ≠ .ret := by
  simp [inner]

theorem entered_of_inner {x : Emitted} (h : x.inner = true) : entered opened a x = opened := by
  simp [entered, (inner_iff.mp h).1]

theorem left_of_inner {x : Emitted} (h : x.inner = true) : left opened a x = opened := by
  simp [left, entered_of_inner h, (inner_iff.mp h).2]

theorem leaving_of_inner {code : List Emitted} (h : code.all Emitted.inner = true) :
    leaving opened a code = opened := by
  induction code generalizing a with
  | nil => rfl
  | cons x code ih =>
    obtain ⟨hx, hcode⟩ := (List.all_cons ▸ Bool.and_eq_true_iff).mp h
    rw [leaving, left_of_inner hx]
    exact ih hcode

end

theorem mem_entered {opened : List (Nat × Routine)} {a e : Nat} {x : Emitted} {r : Routine}
    (h : (e, r) ∈ entered opened a x) : (e, r) ∈ opened ∨ e = a ∧ x.routine? = some r := by
  unfold entered at h
  split at h
  next s hs =>
    rcases List.mem_cons.mp h with heq | h
    · cases heq
      exact .inr ⟨rfl, hs⟩
    · exact .inl h
  next => exact .inl h

/-- The entry of every open routine is an instruction of the code. -/
theorem mem_leaving {code : List Emitted} {a : Nat} {opened : List (Nat × Routine)} {e : Nat}
    {r : Routine} (h : (e, r) ∈ leaving opened a code) :
    (e, r) ∈ opened ∨ ∃ k x, code[k]? = some x ∧ e = a + k ∧ x.routine? = some r := by
  induction code generalizing opened a with
  | nil => exact .inl h
  | cons x code ih =>
    rcases ih h with hleft | ⟨k, y, hy, he, hr⟩
    · have hentered : (e, r) ∈ entered opened a x := by
        unfold left at hleft
        split at hleft
        · exact List.mem_of_mem_tail hleft
        · exact hleft
      rcases mem_entered hentered with hopened | ⟨rfl, hr⟩
      · exact .inl hopened
      · exact .inr ⟨0, x, rfl, rfl, hr⟩
    · exact .inr ⟨k + 1, y, hy, by omega, hr⟩

/-- An instruction has a routine for its origin if and only if it is an entry. -/
def Emitted.Marked (x : Emitted) : Prop := x.routine?.isSome = x.op.isEnter

theorem map_fst_entered {x : Emitted} (h : x.Marked) (opened : List (Nat × Routine)) (a : Nat) :
    (entered opened a x).map (·.1) =
      if x.op.isEnter then a :: opened.map (·.1) else opened.map (·.1) := by
  unfold entered
  rw [← h]
  cases x.routine? <;> simp

theorem map_fst_leaving {code : List Emitted} (h : ∀ x ∈ code, x.Marked)
    (opened : List (Nat × Routine)) (a : Nat) :
    (leaving opened a code).map (·.1) = openEntries (opened.map (·.1)) a (erase code) := by
  induction code generalizing opened a with
  | nil => rfl
  | cons x code ih =>
    have hleft : (left opened a x).map (·.1) =
        if x.op = .ret then ((entered opened a x).map (·.1)).tail
        else (entered opened a x).map (·.1) := by
      unfold left
      split <;> simp
    rw [leaving, ih (fun y hy => h y (List.mem_cons_of_mem _ hy)), hleft,
      map_fst_entered (h x List.mem_cons_self)]
    rfl

/-- Reading the nesting off the listing gives the routines around an instruction. -/
theorem map_fst_enclosing {code : List Emitted} (h : ∀ x ∈ code, x.Marked) {a : Nat} {x : Emitted}
    (hx : code[a]? = some x) :
    (entered (leaving [] 0 (code.take a)) a x).map (·.1) = enclosing (erase code) a := by
  rw [map_fst_entered (h x (List.mem_of_getElem? hx)),
    map_fst_leaving fun y hy => h y (List.mem_of_mem_take hy)]
  have htake : erase (code.take a) = (erase code).take a := by
    simp [erase]
  have hget : (erase code)[a]? = some x.instruction := by
    simp [erase, hx]
  simp [enclosing, htake, hget, Emitted.op]

/-- The entry of a routine around an instruction has the routine for its origin. -/
theorem routine?_of_mem_entered {code : List Emitted} {a : Nat} {x : Emitted}
    (hx : code[a]? = some x) {pair : Nat × Routine}
    (hpair : pair ∈ entered (leaving [] 0 (code.take a)) a x) :
    code[pair.1]?.bind Emitted.routine? = some pair.2 := by
  obtain ⟨e, r⟩ := pair
  rcases mem_entered hpair with hpair | ⟨rfl, hr⟩
  · rcases mem_leaving hpair with hnil | ⟨k, y, hy, rfl, hr⟩
    · simp at hnil
    · have hy : code[k]? = some y := by
        rw [List.getElem?_take] at hy
        split at hy
        · exact hy
        · simp at hy
      simp [hy, hr]
  · simp [hx, hr]

section

variable {code : List Emitted} (h : ∀ x ∈ code, x.Marked) {a : Nat} {x : Emitted}
  (hx : code[a]? = some x)

include h hx

/-- The origins of the entries around an instruction are the routines around it. -/
theorem map_snd_enclosing :
    (entered (leaving [] 0 (code.take a)) a x).map (·.2) =
      (enclosing (erase code) a).filterMap fun e => code[e]?.bind Emitted.routine? := by
  rw [← map_fst_enclosing h hx, List.filterMap_map]
  have horigins : ∀ pair ∈ entered (leaving [] 0 (code.take a)) a x,
      code[pair.1]?.bind Emitted.routine? = some pair.2 :=
    fun _ hpair => routine?_of_mem_entered hx hpair
  exact (List.filterMap_eq_map_iff_forall_eq_some.mpr horigins).symm

theorem exists_entry_of_enclosing {level : Nat} {r : Routine}
    (hr : ((enclosing (erase code) a).filterMap
      fun e => code[e]?.bind Emitted.routine?)[level]? = some r) :
    ∃ e y, (enclosing (erase code) a)[level]? = some e ∧ code[e]? = some y ∧
      y.routine? = some r := by
  rw [← map_snd_enclosing h hx, List.getElem?_map] at hr
  obtain ⟨⟨e, r⟩, hpair, rfl⟩ := Option.map_eq_some_iff.mp hr
  obtain ⟨y, hy, hroutine⟩ := Option.bind_eq_some_iff.mp
    (routine?_of_mem_entered hx (List.mem_of_getElem? hpair))
  refine ⟨e, y, ?_, hy, hroutine⟩
  rw [← map_fst_enclosing h hx, List.getElem?_map, hpair]
  rfl

end

/-! ## Where a routine stands -/

@[simp] theorem inner_plain (op : Op) : (plain op).inner = (op != .ret) := rfl

@[simp] theorem inner_jump (n : Nat) : (jump n).inner = true := rfl

@[simp] theorem inner_jumpUnless (n : Nat) : (jumpUnless n).inner = true := rfl

@[simp] theorem inner_landing (n : Nat) : (landing n).inner = true := rfl

@[simp] theorem inner_argument (k : Nat) : (argument k).inner = true := rfl

@[simp] theorem inner_load (u : Use) : (Emitted.load u).inner = true := by
  unfold Emitted.inner Emitted.op Emitted.load
  cases u.cell <;> rfl

@[simp] theorem inner_store (u : Use) : (Emitted.store u).inner = true := by
  unfold Emitted.inner Emitted.op Emitted.store
  cases u.cell <;> rfl

@[simp] theorem inner_call (callee : Use) (arguments : List Term) (signatures : Signatures) :
    (⟨.plain callee.callOp, .call callee arguments signatures⟩ : Emitted).inner = true := by
  unfold Emitted.inner Emitted.op Use.callOp
  cases callee.target? <;> rfl

theorem Term.code_inner (t : Term) : t.code.all Emitted.inner = true := by
  induction t with
  | number | boolean | use => simp [-List.all_eq_true, Term.code]
  | negation operand ih => simp [-List.all_eq_true, Term.code, ih]
  | arithmetic op left right ihLeft ihRight | comparison op left right ihLeft ihRight =>
    simp [-List.all_eq_true, Term.code, ihLeft, ihRight]

mutual

theorem Action.code_inner : ∀ (a : Action) (n : Nat), (a.code n).all Emitted.inner = true
  | .skip, _ => rfl
  | .store _ _ value, _ => by simp [-List.all_eq_true, Action.code, value.code_inner]
  | .choose _ guard first second, _ => by
      simp [-List.all_eq_true, Action.code, guard.code_inner, first.code_inner, second.code_inner]
  | .call _ arguments _, _ => by
      have harguments : arguments.all (fun _ => true) = true := by simp
      simp [-List.all_eq_true, Action.code, Term.code_inner, harguments]
  | .read _, _ => by simp [Action.code]
  | .write value, _ => by simp [-List.all_eq_true, Action.code, value.code_inner]
  | .seq first second, _ => by simp [-List.all_eq_true, Action.code, first.code_inner, second.code_inner]
  | .branch test body alternative, _ => by
      simp [-List.all_eq_true, Action.code, test.code_inner, body.code_inner, alternative.code_inner]
  | .loop test body, _ => by simp [-List.all_eq_true, Action.code, test.code_inner, body.code_inner]
  | .rounds test _ step body, _ => by
      simp [-List.all_eq_true, Action.code, test.code_inner, step.code_inner, body.code_inner]
  | .switch subject cases fallback, _ => by
      simp [-List.all_eq_true, Action.code, cases.code_inner, fallback.code_inner]

theorem Cases.code_inner : ∀ (cases : Cases) (subject : Term) (exit n : Nat),
    (cases.code subject exit n).all Emitted.inner = true
  | .none, _, _, _ => rfl
  | .case label body rest, subject, _, _ => by
      simp [-List.all_eq_true, Cases.code, subject.code_inner, label.code_inner, body.code_inner,
        rest.code_inner]

end

theorem prologue_inner (count : Nat) :
    (Routine.prologue count).all Emitted.inner = true := by
  simp [Routine.prologue]

/-- The code of the routine stands in the code, from the address `e` on. -/
def Routine.StandsIn (r : Routine) (e : Nat) (code : List Emitted) : Prop :=
  ∃ (front back : List Emitted) (n : Nat),
    code = front ++ r.around (r.body.code n) ++ back ∧ front.length = e

theorem Routine.StandsIn.entry {r : Routine} {e : Nat} {code : List Emitted}
    (h : r.StandsIn e code) : code[e]? = some r.entry := by
  obtain ⟨front, back, n, rfl, rfl⟩ := h
  simp [around]

theorem Routine.StandsIn.within {r : Routine} {e : Nat} {code : List Emitted}
    (h : r.StandsIn e code) (front back : List Emitted) :
    r.StandsIn (front.length + e) (front ++ code ++ back) := by
  obtain ⟨front', back', n, rfl, rfl⟩ := h
  exact ⟨front ++ front', back' ++ back, n, by simp, by simp⟩

theorem getElem?_append_eq_some {α : Type} {first second : List α} {k : Nat} {x : α}
    (h : (first ++ second)[k]? = some x) :
    first[k]? = some x ∨ ∃ j, k = first.length + j ∧ second[j]? = some x := by
  by_cases hlt : k < first.length
  · exact .inl (List.getElem?_append_left hlt ▸ h)
  · have hle : first.length ≤ k := Nat.le_of_not_lt hlt
    exact .inr ⟨k - first.length, by omega, List.getElem?_append_right hle ▸ h⟩

theorem false_of_inner {code : List Emitted} (h : code.all Emitted.inner = true)
    {k : Nat} {x : Emitted} (hx : code[k]? = some x) {r : Routine} (hr : x.routine? = some r) : False := by
  have hinner := List.all_eq_true.mp h x (List.mem_of_getElem? hx)
  simp [(Emitted.inner_iff.mp hinner).1] at hr

/-- An entry in the code of a routine is its own, or that of a routine inside. -/
theorem Routine.standsIn_around {r s : Routine} {n e : Nat} {x : Emitted}
    (hbody : ∀ {k}, (r.body.code n)[k]? = some x → s.StandsIn k (r.body.code n))
    (hx : (r.around (r.body.code n))[e]? = some x) (hs : x.routine? = some s) :
    s.StandsIn e (r.around (r.body.code n)) := by
  have hprologue := prologue_inner r.params.length
  cases e with
  | zero =>
    cases hx
    cases hs
    exact ⟨[], [], n, by simp, rfl⟩
  | succ k =>
    rcases getElem?_append_eq_some hx with hx | ⟨j, rfl, hj⟩
    · rcases getElem?_append_eq_some hx with hx | ⟨j, rfl, hj⟩
      · exact (false_of_inner hprologue hx hs).elim
      · have hwithin := (hbody hj).within (r.entry :: prologue r.params.length)
          [plain .leave, plain .ret]
        rw [List.length_cons, Nat.add_right_comm] at hwithin
        exact hwithin
    · have hend : x = plain .leave ∨ x = plain .ret := by
        simpa using List.mem_of_getElem? hj
      rcases hend with rfl | rfl <;> cases hs

theorem Body.standsIn_code {s : Routine} {x : Emitted} (hs : x.routine? = some s) :
    ∀ {body : Body} {n e : Nat}, (body.code n)[e]? = some x → s.StandsIn e (body.code n)
  | .done, _, _, hx => by simp [Body.code] at hx
  | .action a rest, n, e, hx => by
      rcases getElem?_append_eq_some hx with hx | ⟨j, rfl, hj⟩
      · exact (false_of_inner (a.code_inner n) hx hs).elim
      · have hwithin := (Body.standsIn_code hs hj).within (a.code n) []
        rwa [List.append_nil] at hwithin
  | .nested label params frame body rest, n, e, hx => by
      rcases getElem?_append_eq_some hx with hx | ⟨j, rfl, hj⟩
      · rcases getElem?_append_eq_some hx with hx | ⟨j, rfl, hj⟩
        · rcases getElem?_append_eq_some hx with hx | ⟨j, rfl, hj⟩
          · exact (false_of_inner (by simp) hx hs).elim
          · have haround := Routine.standsIn_around (r := ⟨label, params, frame, body⟩)
              (Body.standsIn_code hs) hj hs
            have hwithin := haround.within [jump n]
              ([landing n] ++ rest.code (n + 1 + body.labels))
            rwa [← List.append_assoc] at hwithin
        · exact (false_of_inner (by simp) hj hs).elim
      · have hwithin := (Body.standsIn_code hs hj).within
          ([jump n] ++ Routine.around ⟨label, params, frame, body⟩ (body.code (n + 1)) ++
            [landing n]) []
        rwa [List.append_nil] at hwithin

theorem partsCode_standsIn {s : Routine} {x : Emitted} (hs : x.routine? = some s)
    {parts : List Part} {n e : Nat} (hx : (partsCode parts n)[e]? = some x) :
    s.StandsIn e (partsCode parts n) := by
  induction parts generalizing n e with
  | nil => simp [partsCode] at hx
  | cons part parts ih =>
    rcases getElem?_append_eq_some hx with hx | ⟨j, rfl, hj⟩
    · have hpart : s.StandsIn e (part.code n) := by
        cases part with
        | action a => exact (false_of_inner (a.code_inner n) hx hs).elim
        | routine r => exact Routine.standsIn_around (Body.standsIn_code hs) hx hs
      have hwithin := hpart.within [] (partsCode parts (n + part.labels))
      rwa [List.length_nil, Nat.zero_add] at hwithin
    · have hwithin := (ih hj).within (part.code n) []
      rwa [List.append_nil] at hwithin

/-- Behind the code of a body the same routines are open as in front of it. -/
theorem Body.leaving_code : ∀ (body : Body) (n : Nat) (opened : List (Nat × Routine)) (a : Nat),
    leaving opened a (body.code n) = opened
  | .done, _, _, _ => rfl
  | .action first rest, n, opened, a => by
      rw [Body.code, leaving_append, leaving_of_inner (first.code_inner n), rest.leaving_code]
  | .nested label params frame body rest, n, opened, a => by
      simp only [Body.code, Routine.around, List.cons_append, List.nil_append, List.append_assoc,
        leaving, leaving_append, left_of_inner (inner_jump n), left_of_inner (inner_landing n),
        leaving_of_inner (prologue_inner params.length), body.leaving_code, rest.leaving_code]
      rfl

/-- The instruction that removes the frame of a routine belongs to the routine. -/
theorem Routine.owner_leave (r : Routine) (n : Nat) (front back : List Emitted)
    (h : ∀ x ∈ front ++ r.around (r.body.code n) ++ back, x.Marked) :
    owner (erase (front ++ r.around (r.body.code n) ++ back))
      (front.length + 1 + r.params.length + (r.body.code n).length) = some front.length := by
  let before := front ++ r.entry :: (prologue r.params.length ++ r.body.code n)
  have hlength : front.length + 1 + r.params.length + (r.body.code n).length = before.length := by
    simp [before, prologue]
    omega
  have hcode : front ++ r.around (r.body.code n) ++ back =
      before ++ plain .leave :: plain .ret :: back := by
    simp [before, around]
  rw [hlength]
  rw [hcode] at h ⊢
  have hget : (before ++ plain .leave :: plain .ret :: back)[before.length]? =
      some (plain .leave) := by
    simp
  have hopened : leaving [] 0 before = (front.length, r) :: leaving [] 0 front := by
    simp only [before, leaving_append, leaving, leaving_of_inner (prologue_inner r.params.length),
      r.body.leaving_code, Nat.zero_add]
    rfl
  have henclosing := map_fst_enclosing h hget
  rw [List.take_left' rfl, hopened] at henclosing
  rw [owner, ← henclosing]
  rfl

end SlotLang
