import SlotLang.Proofs.Initials
import SlotLang.Proofs.Isolation
import SlotLang.Proofs.ProcedureEchoes
import SlotLang.Proofs.Termination

/-!
# Procedures next to each other

What one procedure leaves behind does not matter to the next one, as long as the second does not use
the name of the first, with one exception: arrays and structs are registered for the whole program,
wherever they are declared.  So two procedures, each of which can stand alone behind the same
declarations, can stand there one after the other if and only if they have no register in common,
and then each has the code that it has alone, up to the numbers of labels.
-/

namespace SlotLang

open Lowering Aggregate

/-! ## Signatures -/

/-- The phrase stays in the procedures that are open, and it signs at most procedures inside the
outermost of them. -/
def SignsBelow {α : Type} (top : String) (x : Lowering α) : Prop :=
  ∀ env : Env, env.Ready → env.scopes.openProcedures.getLast? = some top →
    (x env).env.Ready ∧ (x env).env.scopes.openProcedures = env.scopes.openProcedures ∧
      ∀ label, root label ≠ root top →
        (x env).env.signatures.get? label = env.signatures.get? label

/-- The same for a procedure of this name, which may itself be the outermost one. -/
def SignsProcedure (x : Lowering Unit) (name : String) : Prop :=
  ∀ env : Env, env.Ready → ∀ top, (name :: env.scopes.openProcedures).getLast? = some top →
    ∀ label, root label ≠ root top →
      (x env).env.signatures.get? label = env.signatures.get? label

theorem Modest.signsBelow {α : Type} {P : α → Prop} {x : Lowering α} (h : Modest P x)
    (top : String) : SignsBelow top x := by
  intro env henv _
  obtain ⟨hsteps, -⟩ := h env henv
  obtain ⟨hsignatures, added, hadds, -⟩ := hsteps.adds henv.ne_nil
  exact ⟨hsteps.ready henv, hadds.procedures, fun label _ => by rw [hsignatures]⟩

namespace SignsBelow

variable {α β : Type} {top : String}

theorem bind {x : Lowering α} {f : α → Lowering β} (hx : SignsBelow top x)
    (hf : ∀ a, SignsBelow top (f a)) : SignsBelow top (x >>= f) := by
  intro env henv htop
  obtain ⟨hready, hopen, hfirst⟩ := hx env henv htop
  obtain ⟨hready', hopen', hsecond⟩ := hf (x env).value (x env).env hready (by rw [hopen, htop])
  exact ⟨hready', hopen'.trans hopen,
    fun label hlabel => (hsecond label hlabel).trans (hfirst label hlabel)⟩

theorem terminal (t : Terminal) : SignsBelow top t.lower := (Modest.terminal t).signsBelow top

theorem registerSignature {label : String} (h : root label = root top) (signature : Signature) :
    SignsBelow top (registerSignature label signature) := by
  refine fun env henv _ => ⟨⟨henv.ne_nil, henv.structs⟩, rfl, fun other hother => ?_⟩
  have hne : other ≠ label := by
    rintro rfl
    exact hother h
  exact Signatures.get?_register_of_ne _ _ hne

end SignsBelow

theorem root_joinNames_reverse {names : List String} {top : String}
    (h : names.getLast? = some top) : root (ScopeStack.joinNames names.reverse) = root top := by
  obtain ⟨inside, rfl⟩ := List.getLast?_eq_some_iff.mp h
  rw [List.reverse_append, List.reverse_singleton, List.singleton_append, root_joinNames]

theorem openProcedure_signatures (keyword : Token) (name : Terminal) (env : Env)
    (h : env.scopes.scopes ≠ []) :
    (openProcedure keyword name env).value =
        ScopeStack.joinNames (name.valueD :: env.scopes.openProcedures).reverse ∧
      (openProcedure keyword name env).env.signatures = env.signatures := by
  obtain ⟨⟨_ | ⟨scope, outer⟩, externals, procedures⟩, structs, arrays, signatures, label, last⟩ := env
  · simp at h
  · rw [List.reverse_cons]
    cases name <;> exact ⟨rfl, rfl⟩

section Bodies

variable {body : Lowering Unit}

theorem lowerProcedureBody_signsBelow {top label : String} (hbody : SignsBelow top body)
    (hlabel : root label = root top) (name opening : Terminal) (params : Option (Separated Param))
    (closing brace closingBrace : Terminal) : SignsBelow top
      (lowerProcedureBody label name opening params closing brace body closingBrace) :=
  .bind (.terminal _) fun _ =>
    .bind ((Separated.lower?_modest Param.lower_modest params).signsBelow top) fun _ =>
    .bind (.terminal _) fun _ => .bind (.registerSignature hlabel _) fun _ =>
    .bind ((Modest.emitAll _).signsBelow top) fun _ => .bind (.terminal _) fun _ =>
    .bind hbody fun _ => .terminal _

theorem lowerProcedure_signs (hbody : ∀ top, SignsBelow top body) (keyword : Token)
    (name opening : Terminal) (params : Option (Separated Param))
    (closing brace closingBrace : Terminal) : SignsProcedure
      (lowerProcedure keyword name opening params closing brace body closingBrace) name.valueD := by
  intro env henv top htop label hlabel
  obtain ⟨hopened, hstructs, -, -⟩ := openProcedure_spec keyword name env henv.ne_nil
  obtain ⟨hvalue, hsignatures⟩ := openProcedure_signatures keyword name env henv.ne_nil
  have hready : (openProcedure keyword name env).env.Ready :=
    ⟨by simp [hopened], hstructs ▸ henv.structs⟩
  have hopen : (openProcedure keyword name env).env.scopes.openProcedures =
      name.valueD :: env.scopes.openProcedures := by
    rw [hopened]
    exact congrArg (name.valueD :: ·) (ScopeStack.Adds.pushCurrent henv.ne_nil _).procedures
  have hroot : root (openProcedure keyword name env).value = root top := by
    rw [hvalue, root_joinNames_reverse htop]
  obtain ⟨-, -, hinside⟩ := lowerProcedureBody_signsBelow (hbody top) hroot name opening params
    closing brace closingBrace _ hready (by rw [hopen, htop])
  rw [hsignatures] at hinside
  exact hinside label hlabel

theorem lowerNested_signsBelow {procedure : Lowering Unit} {name : String}
    (hleaves : LeavesProcedure procedure name) (hsigns : SignsProcedure procedure name)
    (top : String) : SignsBelow top (lowerNested procedure) := by
  intro env henv htop
  have hready : Env.Ready { env with nextLabel := env.nextLabel + 1 } :=
    ⟨henv.ne_nil, henv.structs⟩
  have hleft := hleaves _ hready
  have hinside : (name :: env.scopes.openProcedures).getLast? = some top := by
    rw [List.getLast?_cons, htop]
    rfl
  exact ⟨⟨hleft.scopes.ne_nil, hleft.structs⟩, hleft.scopes.procedures, hsigns _ hready top hinside⟩

end Bodies

namespace Procedure

/-- The texts of the tokens that the procedure consists of. -/
def words (p : Procedure) : List String := p.outline.tokens.map (·.value)

theorem lower_leavesName (p : Procedure) : LeavesProcedure p.lower p.name := by
  obtain ⟨keyword, name, opening, params, closing, brace, body, closingBrace⟩ := p
  exact lowerProcedure_leaves (lowerBodyItems_staysInside body) keyword name opening params closing
    brace closingBrace

end Procedure

mutual

theorem Procedure.lower_signs : ∀ p : Procedure, SignsProcedure p.lower p.name
  | .mk keyword name opening params closing brace body closingBrace =>
      lowerProcedure_signs (lowerBodyItems_signsBelow body) keyword name opening params closing brace
        closingBrace

theorem lowerBodyItems_signsBelow : ∀ (items : List BodyItem) (top : String),
    SignsBelow top (lowerBodyItems items)
  | [], top => (Modest.done ()).signsBelow top
  | item :: more, top =>
      .bind (item.lower_signsBelow top) fun _ => lowerBodyItems_signsBelow more top

theorem BodyItem.lower_signsBelow : ∀ (item : BodyItem) (top : String), SignsBelow top item.lower
  | .declaration d, top => d.lower_modest.signsBelow top
  | .statement s, top => s.lower_modest.signsBelow top
  | .nested p, top => lowerNested_signsBelow p.lower_leavesName p.lower_signs top
  | .skipped token, top => (Modest.skip _ token).signsBelow top

end

/-! ## The residue of a procedure -/

theorem ScopeStack.Adds.eq_pushCurrent {st st' : ScopeStack} {s : Symbol} (h : st.Adds st' [s]) :
    st' = st.pushCurrent s := by
  obtain ⟨scope, grown, outer, hscopes, hscopes', hsymbols⟩ := h.scopes
  have hgrown : grown = scope.push s := by
    refine Scope.ext (List.reverse_injective ?_)
    change grown.symbols = (scope.push s).symbols
    rw [hsymbols, Scope.symbols_push]
  obtain ⟨scopes, externals, procedures⟩ := st
  obtain ⟨scopes', externals', procedures'⟩ := st'
  obtain ⟨rfl, rfl, -⟩ := h
  simp only at hscopes hscopes'
  rw [hscopes, hscopes', hgrown]
  rfl

/-- A procedure that the residue hides. -/
theorem ScopeStack.Carries.pushHidden {ρ : Residue} {st : ScopeStack} {s : Symbol}
    (htop : st.openProcedures = []) (hs : ρ.shows s = false) (hstorage : s.kind.hasStorage = false) :
    st.Carries ρ (st.pushCurrent s) := by
  have hclear : ∀ name ∈ st.openProcedures, ρ.hides name = false := by simp [htop]
  have hsame : ∀ scopes : List Scope, List.Forall₂ (Scope.Carries ρ) scopes scopes :=
    fun scopes => List.forall₂_same.mpr fun scope _ => .refl scope
  obtain ⟨_ | ⟨scope, outer⟩, externals, procedures⟩ := st
  · exact ⟨.nil, rfl, rfl, hclear⟩
  · refine ⟨.cons ⟨?_, ?_⟩ (hsame outer), rfl, rfl, hclear⟩
    · simp [Scope.push, hstorage]
    · exact List.filter_cons_of_neg (by simpa using hs)

theorem Env.Carries.refl (env : Env) : env.Carries .nothing env where
  scopes := ⟨List.forall₂_same.mpr fun scope _ => .refl scope, rfl, rfl, by simp⟩
  structs _ _ := rfl
  undefined _ h := absurd h List.not_mem_nil
  arrays _ _ := rfl
  signatures _ _ := rfl
  nextLabel := rfl

/-- What is not among the registers added is found as before. -/
theorem Env.Adds.get_struct {env env' : Env} {rs : List Register} (h : env.Adds rs env')
    {name : String} (hname : .struct name ∉ rs) : env'.structs.get? name = env.structs.get? name := by
  cases hd : env.structs.get? name with
  | some d => exact h.kept name d hd
  | none =>
    have hunknown : ¬Register.Known env' (.struct name) := by
      rw [h.known]
      simp [Register.Known, StructTable.isDefined, hd, hname]
    simpa [Register.Known, StructTable.isDefined] using hunknown

namespace Procedure

variable {p : Procedure} {env : Env}

/-- A procedure without faults makes its registers, and they are new. -/
theorem adds_registers (hp : p.map unplaced = p) (h : Faultless (p.lower env).events) :
    env.Adds p.registers (p.lower env).env := by
  have hechoes := p.lower_echoes (Residue.clears_nothing _) env env (.refl env)
  rw [hp] at hechoes
  exact (hechoes.agrees h (by simp [Residue.nothing])).adds

/-- The residue of a procedure that is lowered in an environment. -/
def residue (p : Procedure) (env : Env) (h : IsProcedureName p.name) : Residue where
  name? := some p.name
  registers := p.registers
  labels := (p.lower env).env.nextLabel - env.nextLabel
  word := by simpa using h

theorem hides_residue (h : IsProcedureName p.name) (text : String) :
    (p.residue env h).hides text = true ↔ root text = p.name := by
  simp [Residue.hides, residue, eq_comm]

theorem scopes_lower (henv : env.Ready) :
    (p.lower env).env.scopes = env.scopes.pushCurrent (procedureSymbol p.name env.scopes.depth) :=
  (p.lower_leavesName env henv).scopes.eq_pushCurrent

/-- Behind a procedure of the program there is its residue, and nothing else is different. -/
theorem carries_residue (hp : p.map unplaced = p) (hname : IsProcedureName p.name)
    (henv : env.Ready) (htop : env.scopes.openProcedures = [])
    (h : Faultless (p.lower env).events) : env.Carries (p.residue env hname) (p.lower env).env := by
  have hadds := adds_registers hp h
  have hroot : root p.name = p.name := root_eq_self hname.dollar_not_mem
  refine ⟨?_, fun name => hadds.get_struct, ?_, ?_, ?_, ?_⟩
  · rw [scopes_lower henv]
    refine .pushHidden htop ?_ rfl
    simpa [Residue.shows, procedureSymbol] using (hides_residue hname _).mpr hroot
  · intro name hmem
    simpa [Register.Known, StructTable.isDefined] using hadds.fresh _ hmem
  · intro key hkey
    have hknown := hadds.known (.array key)
    rw [Bool.eq_iff_iff]
    simpa [Register.Known, residue, show Register.array key ∉ p.registers from hkey] using hknown
  · intro label hlabel
    refine p.lower_signs env henv p.name (by simp [htop]) label ?_
    intro hsame
    rw [← Bool.not_eq_true, hides_residue] at hlabel
    exact hlabel (hsame.trans hroot)
  · have hle := (p.lower_leavesName env henv).labels.le
    simp only [residue]
    omega

end Procedure

/-! ## Programs without places -/

def Program.registers (p : Program) : List Register := p.items.flatMap ProgramItem.registers

theorem Echoes.warn {ρ : Residue} (message : String) :
    Echoes ρ [] id (Lowering.warn message) (Lowering.warn message) := by
  refine .of_silent (fun env => by simp [Lowering.warn, Event.isFault]) fun env env' henv => ?_
  exact ⟨by simp [Lowering.warn, Event.isFault], .quiet rfl rfl, rfl, rfl, henv⟩

theorem Program.lower_echoes (p : Program) :
    Echoes .nothing (p.map unplaced).registers id p.lower (p.map unplaced).lower := by
  have hopen : Echoes .nothing [] id
      (modifyEnv fun env => { env with scopes := env.scopes.openScope })
      (modifyEnv fun env => { env with scopes := env.scopes.openScope }) :=
    .of_silent (fun _ => faultless_nil) fun env env' henv =>
      ⟨faultless_nil, .quiet rfl rfl, rfl, rfl, { henv with scopes := henv.scopes.openScope }⟩
  refine .bind (.terminal _) fun _ => .bind (.terminal _) fun _ => .bind (.terminal _) fun _ =>
    .bind hopen fun _ => .andThen (lowerProgramItems_echoes p.items fun _ _ =>
      Residue.clears_nothing _) fun _ => .bind (.terminal _) fun _ =>
    .env_bind fun env env' henv => ?_
  simp only [Program.map, Terminal.mapText_unplaced, Terminal.valueD_unplaced, henv.scopes.eq]
  split
  · exact .bind (.warn _) fun _ => .terminal _
  · exact .terminal _

/-- The tree of a source text, with no places in it. -/
def bareTree (source file : String) : Except PlacedFault Program :=
  (parse source file).map (Program.map unplaced)

/-- What holds of a tree that comes from a text. -/
structure Program.Bare (p : Program) : Prop where
  map_eq : p.map unplaced = p
  named : ∀ item ∈ p.items, item.Named IsProcedureName
  plain : ∀ t ∈ p.outline.tokens, '$' ∉ t.value.toList

theorem TokenKind.dollar_not_mem_spelling {kind : TokenKind} {text : String}
    (h : kind.spelling? = some text) : '$' ∉ text.toList := by
  have hall : ∀ kind ∈ TokenKind.all,
      (kind.spelling?.all fun text => !text.toList.contains '$') = true := by
    decide
  simpa [h] using hall kind (TokenKind.mem_all kind)

theorem TokenKind.Spells.dollar_not_mem {kind : TokenKind} {text : String} (h : kind.Spells text) :
    '$' ∉ text.toList := by
  cases kind with
  | eof => exact h.elim
  | number =>
    intro hmem
    have hdigit := h.2 '$' hmem
    contradiction
  | identifier => exact IsProcedureName.dollar_not_mem (.inr h.1)
  | _ => exact TokenKind.dollar_not_mem_spelling h

theorem dollar_not_mem_of_scan {source file : String} {tokens : List Token}
    (h : scan source file = .ok tokens) : ∀ t ∈ tokens, '$' ∉ t.value.toList := by
  obtain ⟨found, hcut, rfl⟩ := cut_of_scan_ok h
  refine List.forall_mem_append.mpr ⟨fun t ht => (hcut.spells t ht).dollar_not_mem, ?_⟩
  simp [Token.ending]

theorem Window.map_unplaced_unplaced (w : Window) :
    (w.map unplaced).map unplaced = w.map unplaced := by
  simp [Window.map, unplaced]

/-- The window on tokens without places. -/
def Window.bare (tokens : List Token) : Window :=
  ⟨tokens, (tokens.find? fun t => t.kind = .eof).getD (unplaced.token (.ending (.start "")))⟩

theorem Window.map_unplaced_ofTokens (tokens : List Token) (file : String) :
    (ofTokens tokens file).map unplaced = bare (tokens.map unplaced.token) := by
  have hfound : (tokens.map unplaced.token).find? (fun t => t.kind = .eof) =
      (tokens.find? fun t => t.kind = .eof).map unplaced.token := by
    rw [List.find?_map]
    rfl
  simp only [Window.map, ofTokens, bare, hfound]
  cases tokens.find? fun t => t.kind = .eof <;> rfl

theorem Window.ends_unplaced {w : Window} (h : w.Ends) : (w.map unplaced).Ends where
  kind := h.kind
  first := by
    simp only [Window.map, List.find?_map, Option.getD_map]
    exact congrArg unplaced.token h.first

/-- A program is read from its tokens, whatever their places. -/
theorem Window.bare_readProgram {w : Window} (hends : w.Ends) (hnames : w.Names IsWord)
    (hplain : ∀ t ∈ w.shown, '$' ∉ t.value.toList) :
    ((w.readProgram .full w.budget).1.map unplaced).Bare := by
  have htree : ∀ v : Window, (v.readProgram .full v.budget).1.map unplaced =
      ((v.map unplaced).readProgram .full (v.map unplaced).budget).1 := by
    intro v
    rw [budget_map, readProgram_map]
  rw [htree]
  have hbare := ends_unplaced hends
  refine ⟨?_, ?_, ?_⟩
  · rw [htree, map_unplaced_unplaced]
  · refine readProgram_named .full (.inl rfl) _ _ ?_
    rintro t (ht | rfl) hkind
    · obtain ⟨original, horiginal, rfl⟩ := List.mem_map.mp ht
      exact .inr (hnames original (.inl horiginal) hkind)
    · exact .inr (hnames w.ending (.inr rfl) hkind)
  · have hself : Alike (w.map unplaced).shown.length (w.map unplaced) (w.map unplaced) :=
      ⟨hbare, hbare, rfl, Nat.le_refl _⟩
    have hbudget := enough_budget (w.map unplaced)
    obtain ⟨-, v, hpasses⟩ := readProgram_agree (g := .full) hbudget hbudget hself
    intro t ht
    have hshown : t ∈ (w.map unplaced).shown := hpasses.tokens ▸ List.mem_append_left v ht
    have hmap : (w.map unplaced).shown = w.shown.map unplaced.token := by
      rw [shown, shown, Window.map, List.takeWhile_map, List.map_append]
      rfl
    rw [hmap] at hshown
    obtain ⟨original, horiginal, rfl⟩ := List.mem_map.mp hshown
    exact hplain original horiginal

theorem exists_tokens_of_bareTree {source file : String} {q : Program}
    (h : bareTree source file = .ok q) : ∃ tokens, scan source file = .ok tokens ∧
      ((Window.ofTokens tokens file).readProgram .full (Window.ofTokens tokens file).budget).1.map
        unplaced = q := by
  unfold bareTree parse at h
  cases hscan : scan source file with
  | error fault => simp [hscan, bind, Except.bind, Except.map] at h
  | ok tokens =>
    refine ⟨tokens, rfl, ?_⟩
    simpa [hscan, bind, Except.bind, pure, Except.pure, Except.map] using h

/-- The tree can be read from the tokens without their places. -/
theorem bareTree_of_tokens {source file : String} {tokens : List Token} {q : Program}
    (hscan : (scan source file).toOption.map (List.map unplaced.token) = some tokens)
    (hread : ((Window.bare tokens).readProgram .full (Window.bare tokens).budget).1 = q) :
    bareTree source file = .ok q := by
  cases hfound : scan source file with
  | error fault => simp [hfound, Except.toOption] at hscan
  | ok found =>
    obtain rfl : found.map unplaced.token = tokens := by
      simpa [hfound, Except.toOption] using hscan
    rw [← Window.map_unplaced_ofTokens found file, Window.budget_map, Window.readProgram_map] at hread
    unfold bareTree parse
    rw [hfound, ← hread]
    rfl

theorem bare_of_bareTree {source file : String} {q : Program} (h : bareTree source file = .ok q) :
    q.Bare := by
  obtain ⟨tokens, hscan, rfl⟩ := exists_tokens_of_bareTree h
  have hends := Window.ends_ofTokens tokens file
  refine Window.bare_readProgram hends (scan_names hscan) ?_
  have hplain := dollar_not_mem_of_scan hscan
  refine List.forall_mem_append.mpr ⟨fun t ht => hplain t ?_, ?_⟩
  · exact (List.takeWhile_prefix _).mem ht
  · simp only [List.mem_singleton, forall_eq, Window.ofTokens]
    cases hfound : tokens.find? fun t => t.kind = .eof with
    | none => simp [Token.ending]
    | some t => exact hplain t (List.mem_of_find?_eq_some hfound)

def Outcome.listing (o : Outcome Unit) : List Instruction :=
  header (o.env.scopes.global?.getD .empty) o.env.scopes.externals ++ o.code

/-- Without a residue an echo is the same. -/
theorem Outcome.Echoes.listing_eq {o o' : Outcome Unit} {rs : List Register} {env : Env}
    (h : o.Echoes .nothing rs id env o') : (Faultless o.events ↔ Faultless o'.events) ∧
      (Faultless o.events → o.listing = o'.listing) := by
  have hagrees := fun hfaultless => h.agrees hfaultless (by simp [Residue.nothing])
  refine ⟨⟨fun hfaultless => (hagrees hfaultless).faultless, h.reflects rfl⟩, fun hfaultless => ?_⟩
  have hsame := hagrees hfaultless
  rw [Outcome.listing, Outcome.listing, hsame.env.scopes.eq, hsame.code, Residue.nothing,
    map_shift_zero]

/-- Compiling a text is lowering its tree, and the places in the tree do not matter. -/
theorem exists_compiled {source file : String} {q : Program} (h : bareTree source file = .ok q)
    (minDistance : Nat) (first : Token) :
    ∃ c, compile source file minDistance = .ok c ∧
      (c.errorCount = 0 ↔ Faultless (q.lower (.start first)).events) ∧
      (c.errorCount = 0 → c.listing = (q.lower (.start first)).listing) := by
  obtain ⟨tokens, hscan, rfl⟩ := exists_tokens_of_bareTree h
  have hcompile : compile source file minDistance = .ok (compileTokens tokens file minDistance) := by
    simp [compile, hscan, bind, Except.bind, pure, Except.pure]
  refine ⟨_, hcompile, ?_⟩
  rw [compileTokens, compileWindow_eq]
  generalize Window.ofTokens tokens file = w
  have hstart : (Env.start w.ahead).Carries .nothing (.start first) :=
    { Env.Carries.refl (Env.start w.ahead) with }
  have hechoes : w.outcome.Echoes .nothing _ id (.start w.ahead)
      (((w.readProgram .full w.budget).1.map unplaced).lower (.start first)) :=
    (w.readProgram .full w.budget).1.lower_echoes _ _ hstart
  obtain ⟨hfree, hlisting⟩ := hechoes.listing_eq
  generalize w.outcome = o at hfree hlisting ⊢
  have hcount := Reporter.count_new_hearAll_eq_zero_iff minDistance o.events
  exact ⟨hcount.trans hfree, fun hzero => hlisting (hcount.mp hzero)⟩

/-! ## More procedures behind a program -/

theorem lowerProgramItems_append (items more : List ProgramItem) :
    lowerProgramItems (items ++ more) = (do lowerProgramItems items; lowerProgramItems more) := by
  induction items with
  | nil => rfl
  | cons item items ih =>
    funext env
    simp [lowerProgramItems, ih, bind_apply]

/-- Only the scope of the program is open, and it has these symbols. -/
structure Env.AtTop (env : Env) (globals externals : Scope) : Prop where
  ready : env.Ready
  scopes : env.scopes = ⟨[globals], externals, []⟩

theorem Env.AtTop.procedure {env : Env} {globals externals : Scope}
    (h : env.AtTop globals externals) (p : Procedure) :
    (p.lower env).env.AtTop (globals.push (procedureSymbol p.name 1)) externals := by
  have hleaves := p.lower_leavesName env h.ready
  refine ⟨⟨hleaves.scopes.ne_nil, hleaves.structs⟩, ?_⟩
  rw [Procedure.scopes_lower h.ready, h.scopes]
  rfl

namespace Program

variable (p : Program) (first : Token)

/-- The program with procedures behind its items. -/
def add (procedures : List Procedure) : Program :=
  { p with items := p.items ++ procedures.map .procedure }

def lowerEnd : Lowering Unit := do
  p.closing.lower
  if (← env).scopes.declaresNothing then warn ("Warning: Program " ++ p.name.valueD ++ " is empty")
  p.ending.lower

theorem lower_eq : p.lower = (do p.lowerHead; lowerProgramItems p.items; p.lowerEnd) := by
  funext env
  simp only [lower, lowerHead, lowerEnd, bind_apply, List.append_assoc]

theorem lowerEnd_quiet (env : Env) :
    (p.lowerEnd env).code = [] ∧ (p.lowerEnd env).env.scopes = env.scopes := by
  unfold lowerEnd
  cases p.closing <;> cases p.ending <;> cases hempty : env.scopes.declaresNothing <;>
    simp [bind_apply, Lowering.env, hempty, Terminal.lower, consume, refuseBefore, warn]

/-- Whether the end of a program is there does not depend on what stands in front of it. -/
theorem faultless_lowerEnd (env env' : Env) :
    Faultless (p.lowerEnd env).events ↔ Faultless (p.lowerEnd env').events := by
  unfold lowerEnd
  cases p.closing <;> cases p.ending <;> cases hempty : env.scopes.declaresNothing <;>
    cases hempty' : env'.scopes.declaresNothing <;>
    simp [bind_apply, Lowering.env, hempty, hempty', Terminal.lower, consume, refuseBefore, warn,
      Event.isFault]

/-- The environment behind the items of a program. -/
def behind : Env := (lowerProgramItems p.items (p.lowerHead (.start first)).env).env

variable (procedures : List Procedure)

theorem faultless_add : Faultless ((p.add procedures).lower (.start first)).events ↔
    Faultless (p.lower (.start first)).events ∧
      Faultless (lowerProgramItems (procedures.map .procedure) (p.behind first)).events := by
  have hhead : (p.add procedures).lowerHead = p.lowerHead := rfl
  have hend : (p.add procedures).lowerEnd = p.lowerEnd := rfl
  have hitems : (p.add procedures).items = p.items ++ procedures.map .procedure := rfl
  rw [lower_eq, lower_eq, hhead, hend, hitems, lowerProgramItems_append]
  simp only [bind_apply, faultless_append]
  rw [p.faultless_lowerEnd _ (p.behind first)]
  constructor
  · rintro ⟨hfirst, ⟨hitems, hmore⟩, hlast⟩
    exact ⟨⟨hfirst, hitems, hlast⟩, hmore⟩
  · rintro ⟨⟨hfirst, hitems, hlast⟩, hmore⟩
    exact ⟨hfirst, ⟨hitems, hmore⟩, hlast⟩

theorem code_add : ((p.add procedures).lower (.start first)).code =
    (p.lower (.start first)).code ++
      (lowerProgramItems (procedures.map .procedure) (p.behind first)).code := by
  rw [lower_code, lower_code]
  change (lowerProgramItems (p.items ++ procedures.map .procedure) _).code = _
  rw [lowerProgramItems_append]
  rfl

theorem scopes_add : ((p.add procedures).lower (.start first)).env.scopes =
    (lowerProgramItems (procedures.map .procedure) (p.behind first)).env.scopes := by
  have hitems : (p.add procedures).items = p.items ++ procedures.map .procedure := rfl
  rw [lower_eq, hitems, lowerProgramItems_append]
  exact ((p.add procedures).lowerEnd_quiet _).2

variable {p first}

theorem behind_static (h : Faultless (p.lower (.start first)).events) :
    (p.behind first).static = p.final := by
  have hstart : (p.lowerHead (.start first)).env.static =
      ⟨ScopeStack.empty.openScope, .empty, .empty⟩ := by
    unfold lowerHead
    cases p.keyword <;> cases p.name <;> cases p.opening <;> rfl
  rw [lower_eq, bind_apply, faultless_append, bind_apply, faultless_append] at h
  have hrealized := lowerProgramItems_realizes p.items _ h.2.1
  have hstatic := hrealized.static
  rw [hstart] at hstatic
  exact hstatic

/-- Behind a program without faults only its own scope is open. -/
theorem behind_atTop (h : Faultless (p.lower (.start first)).events) :
    (p.behind first).AtTop p.globals p.externals := by
  have hstatic := behind_static h
  have hscopes : (p.behind first).scopes = p.final.scopes := congrArg Static.scopes hstatic
  have hstructs : (p.behind first).structs = p.final.structs := congrArg Static.structs hstatic
  have hsound : ScopeStack.empty.openScope.Sound :=
    ⟨by simp [ScopeStack.openScope], trivial, trivial⟩
  have hplain : Static.Plain ⟨ScopeStack.empty.openScope, .empty, .empty⟩ := by
    simp [Static.Plain, StructTable.empty]
  have hfinal : p.final.Plain :=
    (elaborateItems_initializes p.items ⟨_, .empty, .empty⟩ hsound hplain).1.plain
  have hopen : p.final.scopes.openProcedures = [] :=
    (elaborateItems_settles p.items ⟨_, .empty, .empty⟩ hsound).growth.grows.procedures
  obtain ⟨globals, hglobals, -, -⟩ := p.elaborate_settles
  have hglobals : p.final.scopes.scopes = [globals] := hglobals
  have hlast : p.globals = globals := by simp [Program.globals, ScopeStack.global?, hglobals]
  have hall : p.final.scopes = ⟨[p.globals], p.externals, []⟩ := by
    rw [hlast, ← hglobals, ← hopen]
    rfl
  refine ⟨⟨?_, ?_⟩, hscopes.trans hall⟩
  · rw [hscopes, hglobals]
    simp
  · rw [hstructs]
    intro d hd m hm
    rw [hfinal d hd m hm]
    rfl

theorem listing_add (h : Faultless (p.lower (.start first)).events) {globals : Scope}
    (htop : (lowerProgramItems (procedures.map .procedure) (p.behind first)).env.AtTop globals
      p.externals) :
    ((p.add procedures).lower (.start first)).listing = header globals p.externals ++
      (erase p.code ++ (lowerProgramItems (procedures.map .procedure) (p.behind first)).code) := by
  obtain ⟨-, -, hcode, -⟩ := p.lower_ensures first h
  rw [Outcome.listing, scopes_add, code_add, hcode, htop.scopes]
  rfl

namespace Bare

variable {q : Procedure}

theorem map_procedure (h : p.Bare) (hq : .procedure q ∈ p.items) : q.map unplaced = q := by
  have hitems : p.items.map (ProgramItem.map unplaced) = p.items.map id := by
    rw [List.map_id]
    exact congrArg Program.items h.map_eq
  have hsame := List.map_inj_left.mp hitems _ hq
  exact ProgramItem.procedure.inj hsame

theorem name_procedure (h : p.Bare) (hq : .procedure q ∈ p.items) : IsProcedureName q.name := by
  have hnamed := h.named _ hq
  obtain ⟨keyword, name, opening, params, closing, brace, body, closingBrace⟩ := q
  exact hnamed.1

theorem root_word (h : p.Bare) (hq : .procedure q ∈ p.items) {t : Token}
    (ht : t ∈ q.outline.tokens) : root t.value = t.value := by
  have hloop : ∀ items : List ProgramItem, .procedure q ∈ items →
      t ∈ (Outline.loop ProgramItem.outline items).tokens := by
    intro items
    induction items with
    | nil => simp
    | cons item items ih =>
      intro hmem
      rcases List.mem_cons.mp hmem with rfl | hmem
      · simp [Outline.loop, ProgramItem.outline, Outline.tokens_round, ht]
      · simp [Outline.loop, Outline.tokens_round, ih hmem]
  refine root_eq_self (h.plain t ?_)
  simp [Program.outline, hloop p.items hq]

end Bare
end Program

/-! ## Two procedures -/

theorem lowerProgramItems_one (p : Procedure) (env : Env) :
    lowerProgramItems ([p].map .procedure) env = p.lower env := by
  simp [lowerProgramItems, ProgramItem.lower, bind_apply]

theorem lowerProgramItems_two (p q : Procedure) (env : Env) :
    lowerProgramItems ([p, q].map .procedure) env = (do p.lower; q.lower) env := by
  simp [lowerProgramItems, ProgramItem.lower, bind_apply]

section Pair

variable {first second : Procedure} {env : Env}

/-- Behind the first procedure, the second one has faults only if the two have a register in
common. -/
theorem faultless_behind_iff (hfirst : first.map unplaced = first)
    (hsecond : second.map unplaced = second) (hname : IsProcedureName first.name)
    (hclears : (first.residue env hname).Clears second.outline) (henv : env.Ready)
    (htop : env.scopes.openProcedures = []) (h₁ : Faultless (first.lower env).events)
    (h₂ : Faultless (second.lower env).events) :
    (Faultless (second.lower (first.lower env).env).events ↔
      first.registers.Disjoint second.registers) ∧
    (first.registers.Disjoint second.registers → (second.lower (first.lower env).env).code =
      (second.lower env).code.map (Instruction.shift (first.residue env hname).labels)) := by
  have hechoes := second.lower_echoes (by rwa [hsecond]) env (first.lower env).env
    (Procedure.carries_residue hfirst hname henv htop h₁)
  rw [hsecond] at hechoes
  have hagrees := fun hdisjoint : first.registers.Disjoint second.registers =>
    hechoes.agrees h₂ (List.disjoint_comm.mp hdisjoint)
  refine ⟨⟨?_, fun hdisjoint => (hagrees hdisjoint).faultless⟩,
    fun hdisjoint => (hagrees hdisjoint).code⟩
  -- The registers of the second procedure are new behind the first one, which made its own.
  intro hboth r hr hr'
  have hknown := ((Procedure.adds_registers hfirst h₁).known r).mpr (.inr hr)
  exact (Procedure.adds_registers hsecond hboth).fresh r hr' hknown

end Pair

/-- Each of two procedures compiles without errors behind the same declarations, and the second does
not mention the name of the first.  Then both of them compile there, one after the other, if and only
if there is no array and no struct that both of them declare.  If so, the first has its own code and
the second has its own up to the numbers of labels. -/
theorem procedure_bodies_local {base : Program} {first second : Procedure}
    {firstText secondText bothText file : String} {minDistance : Nat} {c₁ c₂ : Compilation}
    (hfirst : bareTree firstText file = .ok (base.add [first]))
    (hsecond : bareTree secondText file = .ok (base.add [second]))
    (hboth : bareTree bothText file = .ok (base.add [first, second]))
    (hname : first.name ∉ second.words)
    (h₁ : compile firstText file minDistance = .ok c₁) (hcount₁ : c₁.errorCount = 0)
    (h₂ : compile secondText file minDistance = .ok c₂) (hcount₂ : c₂.errorCount = 0) :
    ∃ c, compile bothText file minDistance = .ok c ∧
      (c.errorCount = 0 ↔ first.registers.Disjoint second.registers) ∧
      (c.errorCount = 0 → ∃ firstCode secondCode labels,
        c₁.listing = header (base.globals.push (procedureSymbol first.name 1)) base.externals ++
          (erase base.code ++ firstCode) ∧
        c₂.listing = header (base.globals.push (procedureSymbol second.name 1)) base.externals ++
          (erase base.code ++ secondCode) ∧
        c.listing = header ((base.globals.push (procedureSymbol first.name 1)).push
            (procedureSymbol second.name 1)) base.externals ++
          (erase base.code ++ (firstCode ++ secondCode.map (Instruction.shift labels)))) := by
  let start := Token.ending (.start file)
  obtain ⟨c₁', hcompile₁, hfree₁, hlisting₁⟩ := exists_compiled hfirst minDistance start
  obtain ⟨c₂', hcompile₂, hfree₂, hlisting₂⟩ := exists_compiled hsecond minDistance start
  obtain ⟨c, hcompile, hfree, hlisting⟩ := exists_compiled hboth minDistance start
  obtain rfl : c₁ = c₁' := Except.ok.inj (h₁.symm.trans hcompile₁)
  obtain rfl : c₂ = c₂' := Except.ok.inj (h₂.symm.trans hcompile₂)
  -- The runs of all three programs are the same up to the end of the declarations.
  have hrun₁ := (base.faultless_add start [first]).mp (hfree₁.mp hcount₁)
  have hrun₂ := (base.faultless_add start [second]).mp (hfree₂.mp hcount₂)
  have hbase := hrun₁.1
  have htop := Program.behind_atTop hbase
  rw [lowerProgramItems_one] at hrun₁ hrun₂
  have hbare := bare_of_bareTree hboth
  have hmem₁ : .procedure first ∈ (base.add [first, second]).items := by simp [Program.add]
  have hmem₂ : .procedure second ∈ (base.add [first, second]).items := by simp [Program.add]
  have hword := hbare.name_procedure hmem₁
  have hclears : (first.residue (base.behind start) hword).Clears second.outline := by
    intro t ht
    rw [← Bool.not_eq_true, Procedure.hides_residue, hbare.root_word hmem₂ ht]
    rintro hsame
    exact hname (hsame ▸ List.mem_map_of_mem ht)
  obtain ⟨hiff, hcode⟩ := faultless_behind_iff (hbare.map_procedure hmem₁)
    (hbare.map_procedure hmem₂) hword hclears htop.ready (by rw [htop.scopes]) hrun₁.2 hrun₂.2
  have hzero : c.errorCount = 0 ↔ first.registers.Disjoint second.registers := by
    rw [hfree, base.faultless_add, lowerProgramItems_two, bind_apply, faultless_append, hiff]
    simp [hbase, hrun₁.2]
  refine ⟨c, hcompile, hzero, fun hcount => ⟨(first.lower (base.behind start)).code,
    (second.lower (base.behind start)).code, (first.residue (base.behind start) hword).labels,
    ?_, ?_, ?_⟩⟩
  · have hlists := base.listing_add [first] hbase
      (lowerProgramItems_one first _ ▸ htop.procedure first)
    rw [hlisting₁ hcount₁, hlists, lowerProgramItems_one]
  · have hlists := base.listing_add [second] hbase
      (lowerProgramItems_one second _ ▸ htop.procedure second)
    rw [hlisting₂ hcount₂, hlists, lowerProgramItems_one]
  · have hlists := base.listing_add [first, second] hbase
      (by rw [lowerProgramItems_two]; exact (htop.procedure first).procedure second)
    rw [hlisting hcount, hlists, lowerProgramItems_two, bind_apply, ← hcode (hzero.mp hcount)]

/-- A procedure that reads an element of a local array, again and again. -/
def loopText (name array : String) : String :=
  "void " ++ name ++ "() \x7b int " ++ array ++ "[2]; while (true) read " ++ array ++ "[1]; \x7d "

def enclosed (procedures : String) : String := "program p \x7b " ++ procedures ++ "\x7d"

section Trees

def bareToken (kind : TokenKind) (value : String) : Token := ⟨kind, value, .start "", .start ""⟩

def bareTerminal (kind : TokenKind) (value : String) : Terminal := .read (bareToken kind value)

def bareIndex (number : String) : Index :=
  ⟨bareToken .openBracket "[", bareTerminal .number number, bareTerminal .closeBracket "]"⟩

/-- The tree of `loopText`. -/
def loopTree (name array : String) : Procedure :=
  .mk (bareToken .kwVoid "void") (bareTerminal .identifier name) (bareTerminal .openParen "(") none
    (bareTerminal .closeParen ")") (bareTerminal .openCurly "\x7b")
    [.declaration (.vars (.scalar (.read (bareToken .kwInt "int")))
        ⟨⟨bareTerminal .identifier array, [bareIndex "2"]⟩, []⟩ (bareTerminal .semicolon ";")),
      .statement (.whileLoop (bareToken .kwWhile "while")
        ⟨bareTerminal .openParen "(", .boolean (bareToken .kwTrue "true"),
          bareTerminal .closeParen ")"⟩
        (.read (bareToken .kwRead "read") ⟨bareTerminal .identifier array, [bareIndex "1"], []⟩
          (bareTerminal .semicolon ";")))]
    (bareTerminal .closeCurly "\x7d")

theorem registers_loopTree (name array : String) :
    (loopTree name array).registers = [.array ⟨array, .int, 1⟩] := rfl

/-- The tree of a program without items. -/
def emptyTree : Program :=
  ⟨bareTerminal .kwProgram "program", bareTerminal .identifier "p", bareTerminal .openCurly "\x7b",
    [], bareTerminal .closeCurly "\x7d", bareTerminal .eof "EOF"⟩

end Trees

/-- Two procedures with loops can stand one after the other if their arrays have different names,
and they cannot if the arrays have the same name, although each array is local. -/
theorem procedure_bodies_local_loops :
    (∃ c₁ c₂ c, compile (enclosed (loopText "f" "a")) "sample" 2 = .ok c₁ ∧
      compile (enclosed (loopText "h" "b")) "sample" 2 = .ok c₂ ∧
      compile (enclosed (loopText "f" "a" ++ loopText "h" "b")) "sample" 2 = .ok c ∧
      c₁.errorCount = 0 ∧ c₂.errorCount = 0 ∧ c.errorCount = 0 ∧
      ∃ firstCode secondCode labels,
        c₁.listing = header (emptyTree.globals.push (procedureSymbol "f" 1)) emptyTree.externals ++
          (erase emptyTree.code ++ firstCode) ∧
        c₂.listing = header (emptyTree.globals.push (procedureSymbol "h" 1)) emptyTree.externals ++
          (erase emptyTree.code ++ secondCode) ∧
        c.listing = header ((emptyTree.globals.push (procedureSymbol "f" 1)).push
            (procedureSymbol "h" 1)) emptyTree.externals ++
          (erase emptyTree.code ++ (firstCode ++ secondCode.map (Instruction.shift labels)))) ∧
    ∃ c₂ c, compile (enclosed (loopText "h" "a")) "sample" 2 = .ok c₂ ∧ c₂.errorCount = 0 ∧
      compile (enclosed (loopText "f" "a" ++ loopText "h" "a")) "sample" 2 = .ok c ∧
      c.errorCount ≠ 0 := by
  have htree : ∀ {text : String} {procedures : List Procedure},
      (scan (enclosed text) "sample").toOption.map (List.map unplaced.token) =
        some (emptyTree.add procedures).outline.tokens →
      ((Window.bare (emptyTree.add procedures).outline.tokens).readProgram .full
        (Window.bare (emptyTree.add procedures).outline.tokens).budget).1 = emptyTree.add procedures →
      bareTree (enclosed text) "sample" = .ok (emptyTree.add procedures) :=
    fun hscan hread => bareTree_of_tokens hscan hread
  have haccepts : ∀ text, (compile text "sample" 2).toOption.map (·.errorCount) = some 0 →
      ∃ c, compile text "sample" 2 = .ok c ∧ c.errorCount = 0 := by
    intro text heval
    cases hcompile : compile text "sample" 2 with
    | error fault => simp [hcompile, Except.toOption] at heval
    | ok c => exact ⟨c, rfl, by simpa [hcompile, Except.toOption] using heval⟩
  have hfirst : bareTree (enclosed (loopText "f" "a")) "sample" =
      .ok (emptyTree.add [loopTree "f" "a"]) := htree (by decide +kernel) rfl
  obtain ⟨c₁, h₁, hcount₁⟩ := haccepts (enclosed (loopText "f" "a")) (by decide +kernel)
  constructor
  · have hsecond : bareTree (enclosed (loopText "h" "b")) "sample" =
        .ok (emptyTree.add [loopTree "h" "b"]) := htree (by decide +kernel) rfl
    have hboth : bareTree (enclosed (loopText "f" "a" ++ loopText "h" "b")) "sample" =
        .ok (emptyTree.add [loopTree "f" "a", loopTree "h" "b"]) := htree (by decide +kernel) rfl
    obtain ⟨c₂, h₂, hcount₂⟩ := haccepts (enclosed (loopText "h" "b")) (by decide +kernel)
    obtain ⟨c, h, hiff, hlisting⟩ := procedure_bodies_local hfirst hsecond hboth (by decide) h₁
      hcount₁ h₂ hcount₂
    have hcount : c.errorCount = 0 := hiff.mpr (by simp [registers_loopTree])
    exact ⟨c₁, c₂, c, h₁, h₂, h, hcount₁, hcount₂, hcount, hlisting hcount⟩
  · have hsecond : bareTree (enclosed (loopText "h" "a")) "sample" =
        .ok (emptyTree.add [loopTree "h" "a"]) := htree (by decide +kernel) rfl
    have hboth : bareTree (enclosed (loopText "f" "a" ++ loopText "h" "a")) "sample" =
        .ok (emptyTree.add [loopTree "f" "a", loopTree "h" "a"]) := htree (by decide +kernel) rfl
    obtain ⟨c₂, h₂, hcount₂⟩ := haccepts (enclosed (loopText "h" "a")) (by decide +kernel)
    obtain ⟨c, h, hiff, -⟩ := procedure_bodies_local hfirst hsecond hboth (by decide) h₁ hcount₁ h₂
      hcount₂
    exact ⟨c₂, c, h₂, hcount₂, h, hiff.not.mpr (by simp [registers_loopTree])⟩

end SlotLang
