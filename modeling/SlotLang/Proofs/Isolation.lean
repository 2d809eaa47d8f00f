import SlotLang.Proofs.Machine
import SlotLang.Proofs.ProcedureCode
import SlotLang.Proofs.StackTyping

/-!
# Procedures are closed off from each other

The code of a procedure is a block that goes from its `Enter` to its `Ret`.  The block of a nested
procedure stands inside the block of the outer one, with a jump in front of it that leads behind it.
What is left of a block without the blocks inside it is the own code of the procedure, and from there
control goes on only to the own code of the same procedure.

This needs no program without faults.  Only procedures have an `Enter` or a `Ret`, a statement jumps
to labels that it lands itself, and a label that was drawn is carried by one instruction.
-/

namespace SlotLang

open Lowering

/-! ## Blocks in a listing -/

/-- Control goes from one instruction to another in one step, and not by a call. -/
def Successor (listing : List Instruction) (x y : Nat) : Prop :=
  ∃ i, listing[x]? = some i ∧
    (i.op.fallsThrough = true ∧ y = x + 1 ∨
      ∃ label j, i.op.target? = some label ∧ listing[y]? = some j ∧ j.carries label.text = true)

theorem Successor.eq_next {listing : List Instruction} {x y : Nat} {i : Instruction}
    (h : Successor listing x y) (hi : listing[x]? = some i) (htarget : i.op.target? = none) :
    i.op.fallsThrough = true ∧ y = x + 1 := by
  obtain ⟨j, hj, hnext⟩ := h
  rw [hi] at hj
  cases hj
  rcases hnext with hnext | ⟨label, _, hlabel, _⟩
  · exact hnext
  · rw [htarget] at hlabel
    contradiction

def StandsAt (listing : List Instruction) (a : Nat) (code : List Instruction) : Prop :=
  ∀ k i, code[k]? = some i → listing[a + k]? = some i

namespace StandsAt

variable {listing first second : List Instruction} {a : Nat}

theorem left (h : StandsAt listing a (first ++ second)) : StandsAt listing a first := by
  intro k i hi
  apply h k i
  have hlt : k < first.length := (List.getElem?_eq_some_iff.mp hi).1
  rw [List.getElem?_append_left hlt, hi]

theorem right (h : StandsAt listing a (first ++ second)) :
    StandsAt listing (a + first.length) second := by
  intro k i hi
  rw [Nat.add_assoc]
  apply h
  rw [List.getElem?_append_right (Nat.le_add_right _ _), Nat.add_sub_cancel_left, hi]

theorem head {i : Instruction} (h : StandsAt listing a (i :: second)) : listing[a]? = some i :=
  h 0 i rfl

theorem tail {i : Instruction} (h : StandsAt listing a (i :: second)) :
    StandsAt listing (a + 1) second := by
  have hcons : StandsAt listing a ([i] ++ second) := h
  exact hcons.right

/-- An instruction of the listing that lies in the code is an instruction of the code. -/
theorem mem {code : List Instruction} (h : StandsAt listing a code) {x : Nat} {i : Instruction}
    (hi : listing[x]? = some i) (hle : a ≤ x) (hlt : x < a + code.length) : i ∈ code := by
  have hk : x - a < code.length := by omega
  have hat := h (x - a) _ (List.getElem?_eq_getElem hk)
  rw [Nat.add_sub_cancel' hle, hi] at hat
  rw [Option.some.inj hat]
  exact List.getElem_mem hk

end StandsAt

/-- A declaration of a procedure, with what was declared in front of it and with the address at which
its code starts. -/
structure Site where
  declaration : Procedure
  env : Env
  first : Nat

mutual

/-- The procedures that are declared inside a procedure, if its code starts at `a`. -/
def Procedure.sitesInside : Procedure → Env → Nat → List Site
  | .mk keyword name opening params closing brace body closingBrace, env, a =>
      let p := Procedure.mk keyword name opening params closing brace body closingBrace
      bodySites body (p.lowerHead env).env (a + 1 + (p.lowerHead env).code.length)

def bodySites : List BodyItem → Env → Nat → List Site
  | [], _, _ => []
  | item :: more, env, a =>
      item.sites env a ++ bodySites more (item.lower env).env (a + (item.lower env).code.length)

def BodyItem.sites : BodyItem → Env → Nat → List Site
  | .nested p, env, a =>
      ⟨p, (freshLabel env).env, a + 1⟩ :: p.sitesInside (freshLabel env).env (a + 1)
  | .declaration _, _, _ | .statement _, _, _ | .skipped _, _, _ => []

end

namespace Site

def code (s : Site) : List Instruction := (s.declaration.lower s.env).code

/-- The address of the last instruction. -/
def last (s : Site) : Nat := s.first + s.code.length - 1

def nested (s : Site) : List Site := s.declaration.sitesInside s.env s.first

/-- The instruction lies in the block of the procedure. -/
def Covers (s : Site) (x : Nat) : Prop := s.first ≤ x ∧ x ≤ s.last

end Site

def Free (sites : List Site) (x : Nat) : Prop := ∀ s ∈ sites, ¬ s.Covers x

namespace Site

/-- The instruction belongs to the own code of the procedure: it lies in its block, but not in the
block of a procedure inside it. -/
def Owns (s : Site) (x : Nat) : Prop := s.Covers x ∧ Free s.nested x

/-- The second block lies inside the first one or behind it. -/
def Apart (s t : Site) : Prop :=
  t ∈ s.nested ∧ s.first < t.first ∧ t.last < s.last ∨ s.last < t.first

/-- Control that is in the own code of a procedure can leave it by calls only. -/
structure Isolated (listing : List Instruction) (s : Site) : Prop where
  long : s.first + 2 ≤ s.last
  stands : StandsAt listing s.first s.code
  enter : listing[s.first]? = some (.labelled (.named (s.env.scopes.labelFor s.declaration.name))
    (.enter ((s.declaration.finalScope s.env).symbols.countP (·.kind.hasStorage))))
  leave : listing[s.last - 1]? = some (.plain .leave)
  ret : listing[s.last]? = some (.plain .ret)
  skipped : ∀ t ∈ s.nested, ∃ past, listing[t.first - 1]? = some (.plain (.jump past)) ∧
    listing[t.last + 1]? = some (.landing past)
  closed : ∀ x y, s.Owns x → Successor listing x y → s.Owns y

end Site

/-- The procedures of a piece of code, which goes from `a` to `b`. -/
structure Laid (listing : List Instruction) (sites : List Site) (a b : Nat) : Prop where
  le : a ≤ b
  within : ∀ s ∈ sites, a ≤ s.first ∧ s.last < b
  enters : ∀ x i, a ≤ x → x < b → listing[x]? = some i → i.op.isEnter = true →
    ∃ s ∈ sites, s.first = x
  apart : sites.Pairwise Site.Apart
  isolated : ∀ s ∈ sites, s.Isolated listing

/-- The piece of code lies in a procedure: control runs through it from its start to its end, around
all procedures in it. -/
structure Confined (listing : List Instruction) (sites : List Site) (a b : Nat) : Prop
    extends Laid listing sites a b where
  skips : ∀ s ∈ sites, a < s.first ∧ s.last + 1 < b ∧
    ∃ past, listing[s.first - 1]? = some (.plain (.jump past)) ∧
      listing[s.last + 1]? = some (.landing past)
  leads : ∀ x y, a ≤ x → x < b → Free sites x → Successor listing x y →
    a ≤ y ∧ y < b ∧ Free sites y ∨ y = b

section

variable {listing : List Instruction} {sites sites' : List Site} {a b m : Nat}

theorem free_append {x : Nat} : Free (sites ++ sites') x ↔ Free sites x ∧ Free sites' x := by
  simp only [Free, List.mem_append, or_imp, forall_and]

theorem Laid.append (h₁ : Laid listing sites a m) (h₂ : Laid listing sites' m b) :
    Laid listing (sites ++ sites') a b := by
  have hle₁ := h₁.le
  have hle₂ := h₂.le
  constructor
  · omega
  · intro s hs
    rcases List.mem_append.mp hs with hs | hs
    · have hwithin := h₁.within s hs
      omega
    · have hwithin := h₂.within s hs
      omega
  · intro x i hax hxb hi henter
    by_cases hxm : x < m
    · obtain ⟨s, hs, hfirst⟩ := h₁.enters x i hax hxm hi henter
      exact ⟨s, List.mem_append_left _ hs, hfirst⟩
    · obtain ⟨s, hs, hfirst⟩ := h₂.enters x i (by omega) hxb hi henter
      exact ⟨s, List.mem_append_right _ hs, hfirst⟩
  · rw [List.pairwise_append]
    refine ⟨h₁.apart, h₂.apart, ?_⟩
    intro s hs t ht
    have hfirst := h₁.within s hs
    have hsecond := h₂.within t ht
    exact .inr (by omega)
  · intro s hs
    rcases List.mem_append.mp hs with hs | hs
    · exact h₁.isolated s hs
    · exact h₂.isolated s hs

theorem Confined.append (h₁ : Confined listing sites a m) (h₂ : Confined listing sites' m b) :
    Confined listing (sites ++ sites') a b := by
  have hle₁ := h₁.le
  have hle₂ := h₂.le
  -- The procedures of one half cover nothing of the other half, nor the place where they meet.
  have hfree₁ : ∀ x, m ≤ x → Free sites x := by
    intro x hx s hs hcovers
    have hskips := h₁.skips s hs
    have hlast := hcovers.2
    omega
  have hfree₂ : ∀ x, x ≤ m → Free sites' x := by
    intro x hx s hs hcovers
    have hskips := h₂.skips s hs
    have hfirst := hcovers.1
    omega
  constructor
  · exact h₁.toLaid.append h₂.toLaid
  · intro s hs
    rcases List.mem_append.mp hs with hs | hs
    · obtain ⟨hfirst, hlast, hpast⟩ := h₁.skips s hs
      exact ⟨hfirst, by omega, hpast⟩
    · obtain ⟨hfirst, hlast, hpast⟩ := h₂.skips s hs
      exact ⟨by omega, hlast, hpast⟩
  · intro x y hax hxb hfree hnext
    rw [free_append] at hfree ⊢
    by_cases hxm : x < m
    · rcases h₁.leads x y hax hxm hfree.1 hnext with ⟨hay, hym, hy⟩ | rfl
      · exact .inl ⟨hay, by omega, hy, hfree₂ y (by omega)⟩
      · by_cases hyb : y < b
        · exact .inl ⟨hle₁, hyb, hfree₁ y (by omega), hfree₂ y (by omega)⟩
        · exact .inr (by omega)
    · rcases h₂.leads x y (by omega) hxb hfree.2 hnext with ⟨hmy, hyb, hy⟩ | rfl
      · exact .inl ⟨by omega, hyb, hfree₁ y hmy, hy⟩
      · exact .inr rfl

theorem Linked.eq_of_carries {drawn : Nat} (h : Linked drawn listing) {n x y : Nat}
    {i j : Instruction} (hx : listing[x]? = some i) (hy : listing[y]? = some j)
    (hi : i.carries (Label.fresh n).text = true) (hj : j.carries (Label.fresh n).text = true) :
    x = y := by
  have hcount : listing.countP (·.carries (Label.fresh n).text) ≤ 1 := by
    rw [h.carried n]
    split <;> omega
  have hfound := findIdx?_of_countP_le_one hcount hx hi
  rw [findIdx?_of_countP_le_one hcount hy hj] at hfound
  exact (Option.some.inj hfound).symm

/-! ## Own code -/

theorem Op.not_isEnter_of_isBound {op : Op} (h : op.isBound = false) : op.isEnter = false := by
  cases op <;> simp_all [isBound, isEnter]

theorem Laid.of_flat {code : List Instruction} (h : StandsAt listing a code)
    (hflat : FlatCode code) : Laid listing [] a (a + code.length) := by
  constructor
  · omega
  · simp
  · intro x i hax hxb hi henter
    rw [Op.not_isEnter_of_isBound (hflat i (h.mem hi hax hxb))] at henter
    contradiction
  · exact .nil
  · simp

/-- Code that lands all labels it jumps to, and has no procedure in it. -/
theorem Confined.of_flat {drawn lo top : Nat} {code : List Instruction}
    (hlinked : Linked drawn listing) (h : StandsAt listing a code) (hflat : FlatCode code)
    (hlands : LandsIn [] [] lo top code) : Confined listing [] a (a + code.length) := by
  constructor
  · exact .of_flat h hflat
  · simp
  · intro x y hax hxb _ hnext
    obtain ⟨i, hi, hnext⟩ := hnext
    rcases hnext with ⟨-, rfl⟩ | ⟨label, j, htarget, hj, hcarries⟩
    · by_cases hlt : x + 1 < a + code.length
      · exact .inl ⟨by omega, hlt, by simp [Free]⟩
      · exact .inr (by omega)
    · -- The label was drawn by the code itself, and so it is landed there.
      obtain ⟨n, hreach, rfl⟩ := (hlands.wired i (h.mem hi hax hxb)).exists_target htarget
      have hn : lo ≤ n ∧ n < top := by simpa using hreach
      have hlanded : 0 < landed n code := by
        rw [hlands.landed n, if_pos hn]
        omega
      obtain ⟨landing, hlanding, hlabel⟩ := List.countP_pos_iff.mp hlanded
      obtain ⟨k, hk⟩ := List.getElem?_of_mem hlanding
      have hy : y = a + k := by
        refine hlinked.eq_of_carries hj (h k landing hk) hcarries ?_
        simp_all [Instruction.carries]
      have hlt : k < code.length := (List.getElem?_eq_some_iff.mp hk).1
      exact .inl ⟨by omega, by omega, by simp [Free]⟩

/-! ## Procedures -/

namespace Site

variable {s : Site}

theorem code_eq (s : Site) : s.code = s.declaration.enter s.env ::
    ((s.declaration.lowerHead s.env).code ++
      ((lowerBodyItems s.declaration.body (s.declaration.lowerHead s.env).env).code ++
        [.plain .leave, .plain .ret])) :=
  s.declaration.lower_code s.env

/-- The address of the `Leave`, which is where the body ends. -/
theorem last_eq (s : Site) : s.last = s.first + 1 + (s.declaration.lowerHead s.env).code.length +
    (lowerBodyItems s.declaration.body (s.declaration.lowerHead s.env).env).code.length + 1 := by
  simp [last, code_eq]
  omega

theorem last_succ (s : Site) : s.last + 1 = s.first + s.code.length := by
  rw [s.last_eq, s.code_eq]
  simp only [List.length_cons, List.length_append, List.length_nil]
  omega

theorem nested_eq (s : Site) : s.nested =
    bodySites s.declaration.body (s.declaration.lowerHead s.env).env
      (s.first + 1 + (s.declaration.lowerHead s.env).code.length) := by
  obtain ⟨p, env, first⟩ := s
  cases p with
  | mk keyword name opening params closing brace body closingBrace =>
    simp only [nested, Procedure.sitesInside]
    rfl

theorem stands_end (h : StandsAt listing s.first s.code) :
    listing[s.last - 1]? = some (.plain .leave) ∧ listing[s.last]? = some (.plain .ret) := by
  rw [code_eq] at h
  have hend := h.tail.right.right
  have hlast := s.last_eq
  have hleave := hend.head
  have hret := hend.tail.head
  constructor
  · rw [hlast]
    exact hleave
  · rw [hlast]
    exact hret

theorem stands_enter (h : StandsAt listing s.first s.code) :
    listing[s.first]? = some (s.declaration.enter s.env) := by
  rw [code_eq] at h
  exact h.head

/-- From its entry control runs through the body to the `Leave`, around the procedures inside. -/
theorem closed (h : StandsAt listing s.first s.code)
    (hbody : Confined listing s.nested (s.first + 1) (s.last - 1)) {x y : Nat} (hx : s.Owns x)
    (hnext : Successor listing x y) : s.Owns y := by
  have hlast := s.last_eq
  have hle := hbody.le
  have hedge : ∀ z, z ≤ s.first + 1 ∨ s.last - 1 ≤ z → Free s.nested z := by
    intro z hz t ht hcovers
    have hskips := hbody.skips t ht
    have hcovered : t.first ≤ z ∧ z ≤ t.last := hcovers
    omega
  obtain ⟨hleave, hret⟩ := stands_end h
  obtain ⟨⟨hfirst, hxlast⟩, hfree⟩ := hx
  by_cases hentry : x = s.first
  · rw [hentry] at hnext
    obtain ⟨-, rfl⟩ := hnext.eq_next (stands_enter h) rfl
    exact ⟨⟨by omega, by omega⟩, hedge _ (by omega)⟩
  by_cases hinside : x < s.last - 1
  · rcases hbody.leads x y (by omega) hinside hfree hnext with ⟨hfy, hyl, hy⟩ | rfl
    · exact ⟨⟨by omega, by omega⟩, hy⟩
    · exact ⟨⟨by omega, by omega⟩, hedge _ (by omega)⟩
  by_cases hend : x = s.last
  · rw [hend] at hnext
    have hfalls := (hnext.eq_next hret rfl).1
    contradiction
  · rw [show x = s.last - 1 by omega] at hnext
    obtain ⟨-, rfl⟩ := hnext.eq_next hleave rfl
    exact ⟨⟨by omega, by omega⟩, hedge _ (by omega)⟩

theorem isolated (h : StandsAt listing s.first s.code)
    (hbody : Confined listing s.nested (s.first + 1) (s.last - 1)) : s.Isolated listing := by
  have hle := hbody.le
  have hlast := s.last_eq
  obtain ⟨hleave, hret⟩ := stands_end h
  constructor
  · omega
  · exact h
  · rw [stands_enter h, Procedure.enter, Scope.slots_eq, Scope.symbols, List.countP_reverse]
  · exact hleave
  · exact hret
  · intro t ht
    exact (hbody.skips t ht).2.2
  · intro x y hx hnext
    exact closed h hbody hx hnext

theorem laid (h : StandsAt listing s.first s.code)
    (hbody : Confined listing s.nested (s.first + 1) (s.last - 1)) :
    Laid listing (s :: s.nested) s.first (s.last + 1) := by
  have hle := hbody.le
  have hlast := s.last_eq
  obtain ⟨hleave, hret⟩ := stands_end h
  constructor
  · omega
  · intro t ht
    rcases List.mem_cons.mp ht with rfl | ht
    · omega
    · have hskips := hbody.skips t ht
      omega
  · intro x i hfx hxl hi henter
    by_cases hentry : x = s.first
    · exact ⟨s, List.mem_cons_self, hentry.symm⟩
    by_cases hinside : x < s.last - 1
    · obtain ⟨t, ht, hfirst⟩ := hbody.enters x i (by omega) hinside hi henter
      exact ⟨t, List.mem_cons_of_mem _ ht, hfirst⟩
    -- What is left are the two instructions at the end.
    by_cases hend : x = s.last
    · rw [hend, hret] at hi
      cases hi
      contradiction
    · rw [show x = s.last - 1 by omega, hleave] at hi
      cases hi
      contradiction
  · apply List.Pairwise.cons
    · intro t ht
      have hskips := hbody.skips t ht
      exact .inl ⟨ht, by omega, by omega⟩
    · exact hbody.apart
  · intro t ht
    rcases List.mem_cons.mp ht with rfl | ht
    · exact isolated h hbody
    · exact hbody.isolated t ht

end Site

/-- A nested procedure: the jump in front of it leads to the instruction behind it. -/
theorem Confined.nested {drawn n : Nat} {s : Site} (hlinked : Linked drawn listing)
    (hlaid : Laid listing (s :: s.nested) s.first (s.last + 1))
    (hjump : listing[a]? = some (.plain (.jump (.fresh n)))) (hfirst : s.first = a + 1)
    (hlanding : listing[s.last + 1]? = some (.landing (.fresh n))) :
    Confined listing (s :: s.nested) a (s.last + 2) := by
  have hisolated := hlaid.isolated s List.mem_cons_self
  have hlong := hisolated.long
  constructor
  · constructor
    · omega
    · intro t ht
      have hwithin := hlaid.within t ht
      omega
    · intro x i hax hxl hi henter
      by_cases hbefore : x = a
      · rw [hbefore, hjump] at hi
        cases hi
        contradiction
      by_cases hbehind : x = s.last + 1
      · rw [hbehind, hlanding] at hi
        cases hi
        contradiction
      · exact hlaid.enters x i (by omega) (by omega) hi henter
    · exact hlaid.apart
    · exact hlaid.isolated
  · intro t ht
    have hwithin := hlaid.within t ht
    refine ⟨by omega, by omega, ?_⟩
    rcases List.mem_cons.mp ht with rfl | ht
    · refine ⟨.fresh n, ?_, hlanding⟩
      rw [hfirst]
      exact hjump
    · exact hisolated.skipped t ht
  · have hfree : ∀ z, z ≤ a ∨ s.last < z → Free (s :: s.nested) z := by
      intro z hz t ht hcovers
      have hwithin := hlaid.within t ht
      have hcovered : t.first ≤ z ∧ z ≤ t.last := hcovers
      omega
    intro x y hax hxl hx hnext
    have hout : ¬ s.Covers x := hx s List.mem_cons_self
    by_cases hbefore : x = a
    · obtain ⟨i, hi, hnext⟩ := hnext
      rw [hbefore, hjump] at hi
      cases hi
      rcases hnext with ⟨hfalls, -⟩ | ⟨label, j, htarget, hj, hcarries⟩
      · contradiction
      · cases htarget
        have hy : y = s.last + 1 := by
          apply hlinked.eq_of_carries hj hlanding hcarries
          simp [Instruction.carries, Instruction.landing, Instruction.labelled]
        exact .inl ⟨by omega, by omega, hfree y (by omega)⟩
    · have hbehind : x = s.last + 1 := by
        by_contra hne
        exact hout ⟨by omega, by omega⟩
      rw [hbehind] at hnext
      obtain ⟨-, rfl⟩ := hnext.eq_next hlanding rfl
      exact .inr rfl

/-- The head and the body of a procedure make up all the code between its ends. -/
theorem Site.confined {drawn : Nat} {s : Site} (hlinked : Linked drawn listing)
    (h : StandsAt listing s.first s.code)
    (hbody : ∀ env a, StandsAt listing a (lowerBodyItems s.declaration.body env).code →
      Confined listing (bodySites s.declaration.body env a) a
        (a + (lowerBodyItems s.declaration.body env).code.length)) :
    Confined listing s.nested (s.first + 1) (s.last - 1) := by
  rw [Site.code_eq] at h
  have hstraight := s.declaration.lowerHead_straight s.env
  have hhead := Confined.of_flat hlinked h.tail.left hstraight.2.flat (.of_straight hstraight.2 0)
  have hwhole := hhead.append (hbody _ _ h.tail.right.left)
  rw [Site.nested_eq, Site.last_eq]
  exact hwhole

mutual

theorem Procedure.laid {drawn : Nat} (hlinked : Linked drawn listing) :
    ∀ (p : Procedure) (env : Env) (a : Nat), StandsAt listing a (Site.mk p env a).code →
    Laid listing (⟨p, env, a⟩ :: (Site.mk p env a).nested) a ((Site.mk p env a).last + 1)
  | .mk _ _ _ _ _ _ body _, _, _, h =>
    Site.laid h (Site.confined hlinked h fun env a hstands =>
      bodySites_confined hlinked body env a hstands)

theorem bodySites_confined {drawn : Nat} (hlinked : Linked drawn listing) :
    ∀ (items : List BodyItem) (env : Env) (a : Nat),
    StandsAt listing a (lowerBodyItems items env).code →
    Confined listing (bodySites items env a) a (a + (lowerBodyItems items env).code.length)
  | [], env, a, h =>
    .of_flat hlinked h ((Straight.pure ()).flat env) (.of_straight .nil 0)
  | item :: more, env, a, h => by
    have hfirst := item.confined hlinked env a h.left
    have hrest := bodySites_confined hlinked more _ _ h.right
    rw [lowerBodyItems, bind_apply, List.length_append, ← Nat.add_assoc]
    exact hfirst.append hrest

theorem BodyItem.confined {drawn : Nat} (hlinked : Linked drawn listing) :
    ∀ (item : BodyItem) (env : Env) (a : Nat), StandsAt listing a (item.lower env).code →
    Confined listing (item.sites env a) a (a + (item.lower env).code.length)
  | .declaration d, env, a, h =>
    .of_flat hlinked h (d.lower_straight.flat env) (.of_straight (d.lower_straight env).2 0)
  | .statement s, env, a, h =>
    .of_flat hlinked h (s.lower_flat env) (s.lower_lands env (by simp))
  | .skipped token, env, a, h =>
    .of_flat hlinked h ((Straight.skip _ token).flat env)
      (.of_straight (Straight.skip "Stat" token env).2 0)
  | .nested p, env, a, h => by
    let s : Site := ⟨p, (freshLabel env).env, a + 1⟩
    have hcode : ((BodyItem.nested p).lower env).code =
        .plain (.jump (.fresh env.nextLabel)) :: (s.code ++ [.landing (.fresh env.nextLabel)]) :=
      rfl
    rw [hcode] at h ⊢
    have hlaid := p.laid hlinked (freshLabel env).env (a + 1) h.tail.left
    have hlast : s.last + 1 = a + 1 + s.code.length := s.last_succ
    have hend : a + (Instruction.plain (.jump (.fresh env.nextLabel)) ::
        (s.code ++ [.landing (.fresh env.nextLabel)])).length = s.last + 2 := by
      simp only [List.length_cons, List.length_append, List.length_nil]
      omega
    rw [hend]
    exact .nested hlinked hlaid h.head rfl (hlast ▸ h.tail.right.head)

end

end

/-! ## Programs -/

def ProgramItem.sites : ProgramItem → Env → Nat → List Site
  | .procedure p, env, a => ⟨p, env, a⟩ :: (Site.mk p env a).nested
  | .declaration _, _, _ | .external _, _, _ | .skipped _, _, _ => []

def itemsSites : List ProgramItem → Env → Nat → List Site
  | [], _, _ => []
  | item :: more, env, a =>
      item.sites env a ++ itemsSites more (item.lower env).env (a + (item.lower env).code.length)

theorem ProgramItem.laid {listing : List Instruction} {drawn : Nat}
    (hlinked : Linked drawn listing) (item : ProgramItem) (env : Env) (a : Nat)
    (h : StandsAt listing a (item.lower env).code) :
    Laid listing (item.sites env a) a (a + (item.lower env).code.length) := by
  cases item with
  | declaration d => exact .of_flat h (d.lower_straight.flat env)
  | external e => exact .of_flat h (e.lower_straight.flat env)
  | skipped token => exact .of_flat h ((Straight.skip _ token).flat env)
  | procedure p =>
    have hlaid := p.laid hlinked env a h
    rw [Site.last_succ] at hlaid
    exact hlaid

theorem itemsSites_laid {listing : List Instruction} {drawn : Nat}
    (hlinked : Linked drawn listing) (items : List ProgramItem) (env : Env) (a : Nat)
    (h : StandsAt listing a (lowerProgramItems items env).code) :
    Laid listing (itemsSites items env a) a (a + (lowerProgramItems items env).code.length) := by
  induction items generalizing env a with
  | nil => exact .of_flat h ((Straight.pure ()).flat env)
  | cons item more ih =>
    have hfirst := item.laid hlinked env a h.left
    have hrest := ih _ _ h.right
    rw [lowerProgramItems, bind_apply, List.length_append, ← Nat.add_assoc]
    exact hfirst.append hrest

mutual

/-- The procedures that are declared inside a procedure. -/
def Procedure.procedures : Procedure → List Procedure
  | .mk _ _ _ _ _ _ body _ => bodyProcedures body

def bodyProcedures : List BodyItem → List Procedure
  | [] => []
  | item :: more => item.procedures ++ bodyProcedures more

def BodyItem.procedures : BodyItem → List Procedure
  | .nested p => p :: p.procedures
  | .declaration _ | .statement _ | .skipped _ => []

end

def ProgramItem.procedures : ProgramItem → List Procedure
  | .procedure p => p :: p.procedures
  | .declaration _ | .external _ | .skipped _ => []

mutual

theorem Procedure.map_sitesInside : ∀ (p : Procedure) (env : Env) (a : Nat),
    (p.sitesInside env a).map (·.declaration) = p.procedures
  | .mk _ _ _ _ _ _ body _, _, _ => by
    rw [Procedure.sitesInside, Procedure.procedures]
    exact map_bodySites body _ _

theorem map_bodySites : ∀ (items : List BodyItem) (env : Env) (a : Nat),
    (bodySites items env a).map (·.declaration) = bodyProcedures items
  | [], _, _ => rfl
  | item :: more, env, a => by
    rw [bodySites, bodyProcedures, List.map_append, item.map_sites, map_bodySites more]

theorem BodyItem.map_sites : ∀ (item : BodyItem) (env : Env) (a : Nat),
    (item.sites env a).map (·.declaration) = item.procedures
  | .nested p, env, a => by
    rw [BodyItem.sites, BodyItem.procedures, List.map_cons, p.map_sitesInside]
  | .declaration _, _, _ | .statement _, _, _ | .skipped _, _, _ => rfl

end

theorem map_itemsSites (items : List ProgramItem) (env : Env) (a : Nat) :
    (itemsSites items env a).map (·.declaration) = items.flatMap (·.procedures) := by
  induction items generalizing env a with
  | nil => rfl
  | cons item more ih =>
    rw [itemsSites, List.map_append, ih, List.flatMap_cons]
    cases item with
    | procedure p =>
      rw [ProgramItem.sites, ProgramItem.procedures, List.map_cons]
      exact congrArg (p :: · ++ _) (p.map_sitesInside env a)
    | declaration d => rfl
    | external e => rfl
    | skipped token => rfl

namespace Program

/-- All procedures of a program, each in front of those inside it. -/
def procedures (p : Program) : List Procedure := p.items.flatMap (·.procedures)

def lowerHead (p : Program) : Lowering Unit := do
  p.keyword.lower
  p.name.lower
  p.opening.lower
  modifyEnv fun env => { env with scopes := env.scopes.openScope }

/-- The procedures of a program, if its code starts at `a`. -/
def sites (p : Program) (env : Env) (a : Nat) : List Site :=
  itemsSites p.items (p.lowerHead env).env a

theorem lower_code (p : Program) (env : Env) :
    (p.lower env).code = (lowerProgramItems p.items (p.lowerHead env).env).code := by
  have hend : ∀ (empty : Bool) (env : Env), ((if empty then do
      warn ("Warning: Program " ++ p.name.valueD ++ " is empty")
      p.ending.lower
    else p.ending.lower : Lowering Unit) env).code = [] := by
    intro empty env
    cases empty <;> simp [warn, Terminal.lower_code]
  simp only [Program.lower, bind_apply, Terminal.lower_code, Lowering.env, List.nil_append]
  exact (congrArg ((lowerProgramItems p.items (p.lowerHead env).env).code ++ ·) (hend _ _)).trans
    (List.append_nil _)

end Program

/-- Two procedures have no own code in common. -/
theorem Site.eq_of_owns {sites : List Site} {s t : Site} (hapart : sites.Pairwise Site.Apart)
    (hs : s ∈ sites) (ht : t ∈ sites) {x : Nat} (hsx : s.Owns x) (htx : t.Owns x) : s = t := by
  have hdisjoint : ∀ {u v : Site}, u.Apart v → u.Owns x → v.Owns x → False := by
    intro u v hapart hu hv
    rcases hapart with ⟨hnested, -⟩ | hlt
    · exact hu.2 v hnested hv.1
    · have hulast := hu.1.2
      have hvfirst := hv.1.1
      omega
  refine List.Pairwise.forall_of_forall_of_flip (R := fun u v => u.Owns x → v.Owns x → u = v)
    ?_ ?_ ?_ hs ht hsx htx
  · intro u _ _ _
    rfl
  · exact hapart.imp fun huv hu hv => (hdisjoint huv hu hv).elim
  · exact hapart.imp fun huv hv hu => (hdisjoint huv hu hv).elim

/-- The procedures of a program, which stand in a listing at these places, are closed off from each
other: each declaration has one block, blocks are nested or apart, every `Enter` starts a block, and
control comes from one procedure into another one by calls only. -/
structure Program.Isolates (p : Program) (listing : List Instruction) (sites : List Site) :
    Prop where
  declarations : sites.map (·.declaration) = p.procedures
  apart : sites.Pairwise Site.Apart
  isolated : ∀ s ∈ sites, s.Isolated listing
  enters : ∀ x i, listing[x]? = some i → i.op.isEnter = true → ∃ s ∈ sites, s.first = x
  separate : ∀ s ∈ sites, ∀ t ∈ sites, ∀ x y, s.Owns x → t.Owns y → Successor listing x y → s = t

theorem Program.isolates (p : Program) (env : Env) {listing front : List Instruction} {drawn : Nat}
    (hlinked : Linked drawn listing) (hlisting : listing = front ++ (p.lower env).code)
    (hfront : ∀ i ∈ front, ∃ d, i = .plain (.directive d)) :
    p.Isolates listing (p.sites env front.length) := by
  have hstands : StandsAt listing front.length
      (lowerProgramItems p.items (p.lowerHead env).env).code := by
    intro k i hi
    rw [hlisting, p.lower_code, List.getElem?_append_right (Nat.le_add_right _ _),
      Nat.add_sub_cancel_left]
    exact hi
  have hlaid := itemsSites_laid hlinked p.items (p.lowerHead env).env front.length hstands
  constructor
  · exact map_itemsSites p.items _ _
  · exact hlaid.apart
  · exact hlaid.isolated
  · intro x i hi henter
    have hplace := hi
    rw [hlisting, p.lower_code] at hplace
    rcases getElem?_append_eq_some hplace with hplace | ⟨k, rfl, hk⟩
    · obtain ⟨d, rfl⟩ := hfront i (List.mem_of_getElem? hplace)
      contradiction
    · have hlt := (List.getElem?_eq_some_iff.mp hk).1
      exact hlaid.enters _ i (by omega) (by omega) hi henter
  · intro s hs t ht x y hx hy hnext
    have hsy : s.Owns y := (hlaid.isolated s hs).closed x y hx hnext
    exact Site.eq_of_owns hlaid.apart hs ht hsy hy

/-- Also with errors, the code of every procedure is a block that control enters and leaves only at
its ends, and by calls. -/
theorem procedures_isolated {source file : String} {tokens : List Token}
    (hscan : scan source file = .ok tokens) (minDistance : Nat) :
    ∃ (p : Program) (c : Compilation) (front : List Instruction),
      parse source file = .ok p ∧ compile source file minDistance = .ok c ∧
      c.listing = front ++ (Window.ofTokens tokens file).outcome.code ∧
      (∀ i ∈ front, ∃ d, i = .plain (.directive d)) ∧
      p.Isolates c.listing (p.sites (.start (Window.ofTokens tokens file).ahead) front.length) := by
  have hparse : parse source file = .ok ((Window.ofTokens tokens file).readProgram .full
      (Window.ofTokens tokens file).budget).1 := by
    simp only [parse, hscan, bind, Except.bind, pure, Except.pure]
  have hcompile : compile source file minDistance = .ok (compileTokens tokens file minDistance) := by
    simp only [compile, hscan, bind, Except.bind, pure, Except.pure]
  have hlisting : (compileTokens tokens file minDistance).listing =
      header ((Window.ofTokens tokens file).outcome.env.scopes.global?.getD .empty)
        (Window.ofTokens tokens file).outcome.env.scopes.externals ++
      (Window.ofTokens tokens file).outcome.code := by
    rw [compileTokens, compileWindow_eq]
  have hlinked := (outcome_linked hscan).header_append
    ((Window.ofTokens tokens file).outcome.env.scopes.global?.getD .empty)
    (Window.ofTokens tokens file).outcome.env.scopes.externals
  rw [← hlisting] at hlinked
  have hfront : ∀ globals externals, ∀ i ∈ header globals externals,
      ∃ d, i = .plain (.directive d) := by
    intro globals externals i hi
    obtain ⟨d, -, rfl⟩ := List.mem_map.mp hi
    exact ⟨d, rfl⟩
  exact ⟨_, _, _, hparse, hcompile, hlisting, hfront _ _,
    Program.isolates _ _ hlinked hlisting (hfront _ _)⟩

theorem procedures_isolated_of_faultyText :
    ∃ tokens, scan faultyText "shell" = .ok tokens ∧
      (compile faultyText "shell" 0).toOption.map (·.errorCount) = some 8 ∧
      (parse faultyText "shell").toOption.map (·.procedures.length) = some 2 ∧
      ∃ (p : Program) (c : Compilation) (front : List Instruction),
        parse faultyText "shell" = .ok p ∧ compile faultyText "shell" 0 = .ok c ∧
        c.listing = front ++ (Window.ofTokens tokens "shell").outcome.code ∧
        (∀ i ∈ front, ∃ d, i = .plain (.directive d)) ∧
        p.Isolates c.listing
          (p.sites (.start (Window.ofTokens tokens "shell").ahead) front.length) := by
  have hok : (scan faultyText "shell").toOption.isSome = true := by decide +kernel
  cases hscan : scan faultyText "shell" with
  | error fault => simp [hscan, Except.toOption] at hok
  | ok tokens =>
    exact ⟨tokens, rfl, by decide +kernel, by decide +kernel, procedures_isolated hscan 0⟩

end SlotLang
