import SlotLang.Proofs.StatementCode

/-!
# The code of faultless programs

Procedures put code around the code of their bodies and open a scope for it; external declarations
only add names.  The last theorem of this module is what everything else about faultless programs
starts from: the listing of a program that compiles without errors is its header and the code of its
elaborated parts, and these are well typed.
-/

namespace SlotLang

open Lowering Aggregate

/-! ## Procedures -/

theorem Param.lower_ensures (p : Param) (env : Env) :
    p.lower.Ensures env fun ty code env' =>
      ty = p.ty.ty ∧ code = [] ∧ env'.static = { env.static with scopes := p.declare env.scopes } ∧
        env'.nextLabel = env.nextLabel ∧ (env.static.Scalar → env'.static.Scalar) := by
  simp only [Param.lower, ensures_bind]
  refine (p.ty.lower_ensures env).mono ?_
  rintro ty code env₁ ⟨rfl, hscalar, rfl, token, rfl⟩
  simp only [ensures_terminal]
  intro name hname
  have hvalue : p.name.valueD = name.value := by
    rw [hname, Terminal.valueD_read]
  simp only [hname, Terminal.value?_read, ensures_bind, ensures_discard, ensures_withScopes]
  rw [ensures_pure]
  refine ⟨rfl, rfl, ?_, rfl, fun h => ⟨h.symbols.declareLocal fun _ => hscalar, h.members⟩⟩
  simp [Param.declare, hvalue, Env.static]

theorem lowerParams_ensures (params : Option (Separated Param)) (env : Env) :
    (Separated.lower? params Param.lower).Ensures env fun types code env' =>
      types = (Separated.toList? params).map (·.ty.ty) ∧ code = [] ∧
        env'.static = { env.static with
          scopes := (Separated.toList? params).foldl Param.declare env.scopes } ∧
        env'.nextLabel = env.nextLabel ∧ (env.static.Scalar → env'.static.Scalar) := by
  refine Separated.ensures_lower?
    (R := fun items env types code env' =>
      types = items.map (·.ty.ty) ∧ code = [] ∧
        env'.static = { env.static with scopes := items.foldl Param.declare env.scopes } ∧
        env'.nextLabel = env.nextLabel ∧ (env.static.Scalar → env'.static.Scalar))
    ?_ ?_ ?_ params env
  · intro env
    exact ⟨rfl, rfl, rfl, rfl, id⟩
  · intro p more env
    refine (p.lower_ensures env).mono ?_
    rintro ty code env₁ ⟨rfl, rfl, hstatic₁, hlabel₁, hscalar₁⟩
    rintro types code' env' ⟨rfl, rfl, hstatic, hlabel, hscalar⟩
    refine ⟨rfl, rfl, ?_, hlabel.trans hlabel₁, fun h => hscalar (hscalar₁ h)⟩
    have hscopes₁ : env₁.scopes = p.declare env.scopes := congrArg Static.scopes hstatic₁
    rw [hstatic, hstatic₁, hscopes₁]
    rfl
  · rintro items env token types code env' ⟨htypes, hcode, hstatic, hlabel, hscalar⟩
    exact ⟨htypes, hcode, hstatic, hlabel, hscalar⟩

theorem storeArguments_eq (count : Nat) :
    storeArguments count = erase (Routine.prologue count) := by
  simp [storeArguments, Routine.prologue, erase]

abbrev RealizedBody (st : Static) (n : Nat) (meaning : Body × Static) :
    List Instruction → Env → Prop :=
  Realized st meaning.2 n meaning.1.labels (meaning.1.code n) (st.Scalar → meaning.1.WellTyped)

abbrev RealizesBody (x : Lowering Unit) (meaning : Static → Body × Static) : Prop :=
  Produces x fun st n => RealizedBody st n (meaning st)

abbrev RealizedRoutine (st : Static) (n : Nat) (meaning : Routine × Static) :
    List Instruction → Env → Prop :=
  Realized st meaning.2 n meaning.1.body.labels (meaning.1.around (meaning.1.body.code n))
    (st.Scalar → meaning.1.WellTyped)

abbrev RealizesRoutine (x : Lowering Unit) (meaning : Static → Routine × Static) : Prop :=
  Produces x fun st n => RealizedRoutine st n (meaning st)

/-- The scope of a new procedure starts out empty, so it changes nothing about scalar symbols. -/
theorem Static.Scalar.enterProcedure {st : Static} (h : st.Scalar) (name : String) :
    ((st.scopes.declareProcedure name).2.enterProcedure name).2.Every Symbol.Scalar := by
  have hdeclared : (st.scopes.declareProcedure name).2.Every Symbol.Scalar := by
    refine h.symbols.declareProcedure ?_
    intro hstorage
    simp [ScopeStack.declareProcedure, SymbolKind.hasStorage] at hstorage
  exact ⟨hdeclared.openScope.declared, hdeclared.openScope.external⟩

/-- The code of a body behind the code that stores the arguments. -/
abbrev RealizedInner (st : Static) (n params : Nat) (meaning : Body × Static) :
    List Instruction → Env → Prop :=
  Realized st meaning.2 n meaning.1.labels (Routine.prologue params ++ meaning.1.code n)
    (st.Scalar → meaning.1.WellTyped)

theorem lowerProcedureBody_produces {body : Lowering Unit} {B : Static → Body × Static}
    (hbody : RealizesBody body B) (label : String) (name opening : Terminal)
    (params : Option (Separated Param)) (closing brace closingBrace : Terminal) :
    Produces (lowerProcedureBody label name opening params closing brace body closingBrace)
      fun st n => RealizedInner st n (Separated.toList? params).length
        (B (st.declareParams label name.valueD (Separated.toList? params))) := by
  intro env
  simp only [lowerProcedureBody, registerSignature, ensures_bind, ensures_terminal,
    ensures_modifyEnv, ensures_emitAll]
  intro token₁ _
  refine (lowerParams_ensures params _).mono ?_
  rintro types code env₁ ⟨rfl, rfl, hstatic₁, hlabel₁, hscalar₁⟩
  intro token₂ _ token₃ _
  refine hbody.ensures (env.static.declareParams label name.valueD (Separated.toList? params))
    env.nextLabel ?_ hlabel₁ ?_
  · have hscopes := congrArg Static.scopes hstatic₁
    have hstructs := congrArg Static.structs hstatic₁
    have hsignatures := congrArg Static.signatures hstatic₁
    simp_all [Env.static, Static.declareParams]
  · intro code env₂ h token₄ _
    have hparams : env.static.Scalar →
        (env.static.declareParams label name.valueD (Separated.toList? params)).Scalar := by
      intro hscalar
      have hdeclared := hscalar₁ hscalar
      rw [hstatic₁] at hdeclared
      exact ⟨hdeclared.symbols, hdeclared.members⟩
    refine ⟨h.static, h.labels, ?_, fun hscalar => h.typed (hparams hscalar),
      fun hscalar => h.scalar (hparams hscalar)⟩
    simp [storeArguments_eq, h.code]

theorem lowerProcedure_realizes {body : Lowering Unit} {B : Static → Body × Static}
    (hbody : RealizesBody body B) (keyword : Token) (name opening : Terminal)
    (params : Option (Separated Param)) (closing brace closingBrace : Terminal) :
    RealizesRoutine
      (lowerProcedure keyword name opening params closing brace body closingBrace) fun st =>
        let inner := B (st.enter name.valueD (Separated.toList? params))
        (⟨(st.scopes.declareProcedure name.valueD).2.labelFor name.valueD,
          (Separated.toList? params).map fun p => (p.name.valueD, p.ty.ty),
          inner.2.scopes.current?.getD .empty, inner.1⟩, inner.2.leave) := by
  intro env
  simp only [lowerProcedure, openProcedure, closeProcedure, ensures_bind, ensures_consume,
    ensures_terminal, ensures_discard, ensures_withScopes, ensures_captured, ensures_pure,
    ensures_emitAll, ensures_emit]
  intro nameToken _
  let declared := (env.scopes.declareProcedure name.valueD).2
  refine (lowerProcedureBody_produces hbody (declared.labelFor name.valueD) name opening params
    closing brace closingBrace).ensures
    ⟨(declared.enterProcedure name.valueD).2, env.structs, env.signatures⟩ env.nextLabel rfl rfl ?_
  intro code env₁ h
  have h : RealizedInner _ env.nextLabel (Separated.toList? params).length
    (B (env.static.enter name.valueD (Separated.toList? params))) code env₁ := h
  have hscopes : (B (env.static.enter name.valueD (Separated.toList? params))).2.scopes =
    env₁.scopes := congrArg Static.scopes h.static.symm
  have hinner : env.static.Scalar → (B (env.static.enter name.valueD
      (Separated.toList? params))).2.Scalar :=
    fun hscalar => h.scalar ⟨hscalar.enterProcedure name.valueD, hscalar.members⟩
  refine ⟨?_, h.labels, ?_, fun hscalar => ⟨?_, ?_⟩, ?_⟩
  · simp only [Static.leave, ← h.static]
    rfl
  -- The size of the frame is taken from the scope as it is when the body has been lowered.
  · have hframe : ScopeStack.slotCount env₁.scopes.exitProcedure.1 =
        (env₁.scopes.current?.getD .empty).slots := by
      simp only [ScopeStack.exitProcedure, ScopeStack.closeScope, ScopeStack.current?]
      cases env₁.scopes.scopes.head? <;> rfl
    simp [Routine.around, Routine.entry, hscopes, hframe, h.code, ScopeStack.enterProcedure]
  · exact (hinner hscalar).symbols.current
  · exact h.typed ⟨hscalar.enterProcedure name.valueD, hscalar.members⟩
  · exact fun hscalar => ⟨(hinner hscalar).symbols.exitProcedure, (hinner hscalar).members⟩

/-! ## Bodies -/

theorem RealizesBody.action {x y : Lowering Unit} {X : Static → Action × Static}
    {Y : Static → Body × Static} (hx : Realizes x X) (hy : RealizesBody y Y) :
    RealizesBody (do x; y) fun st => (.action (X st).1 (Y (X st).2).1, (Y (X st).2).2) := by
  intro env
  simp only [ensures_bind]
  refine (hx env).mono ?_
  intro _ code env₁ h₁
  refine hy.ensures _ _ h₁.static h₁.labels ?_
  intro code' env₂ h₂
  have h := h₁.append h₂
  exact ⟨h.static, h.labels, h.code, fun hscalar => ⟨h₁.typed, h₂.typed (h₁.scalar hscalar)⟩,
    h.scalar⟩

/-- The jump over a nested procedure takes the first label. -/
theorem RealizesBody.nested {x y : Lowering Unit} {X : Static → Routine × Static}
    {Y : Static → Body × Static} (hx : RealizesRoutine x X) (hy : RealizesBody y Y) :
    RealizesBody (do lowerNested x; y) fun st =>
      (.nested (X st).1.label (X st).1.params (X st).1.frame (X st).1.body (Y (X st).2).1,
        (Y (X st).2).2) := by
  intro env
  simp only [lowerNested, ensures_bind, ensures_freshLabel, ensures_emit, ensures_land]
  refine hx.ensures env.static (env.nextLabel + 1) rfl rfl ?_
  intro code env₁ h₁
  refine hy.ensures _ _ h₁.static h₁.labels ?_
  intro code' env₂ h₂
  refine ⟨h₂.static, ?_, ?_, fun h => ⟨h₁.typed h, h₂.typed (h₁.scalar h)⟩,
    fun h => h₂.scalar (h₁.scalar h)⟩
  · simp only [h₂.labels, Body.labels]
    omega
  · simp [Body.code, h₁.code, h₂.code]

mutual

theorem Procedure.lower_realizes : ∀ p : Procedure, RealizesRoutine p.lower p.elaborate
  | .mk keyword name opening params closing brace body closingBrace =>
      lowerProcedure_realizes (lowerBodyItems_realizes body) keyword name opening params closing
        brace closingBrace

theorem lowerBodyItems_realizes : ∀ items : List BodyItem,
    RealizesBody (lowerBodyItems items) (elaborateBody items)
  | [] => by
      intro env
      simp only [lowerBodyItems]
      rw [ensures_pure]
      exact ⟨rfl, rfl, rfl, fun _ => trivial, id⟩
  | .declaration d :: more => RealizesBody.action d.lower_realizes (lowerBodyItems_realizes more)
  | .statement s :: more => RealizesBody.action s.lower_realizes (lowerBodyItems_realizes more)
  | .nested p :: more => RealizesBody.nested p.lower_realizes (lowerBodyItems_realizes more)
  | .skipped token :: more => by
      intro env
      simp [lowerBodyItems, BodyItem.lower]

end

/-! ## External names -/

/-- A change of the meaning of names without code. -/
abbrev Declared (st : Static) (n : Nat) (final : Static) : List Instruction → Env → Prop :=
  Realized st final n 0 [] True

abbrev Declares (x : Lowering Unit) (change : Static → Static) : Prop :=
  Produces x fun st n => Declared st n (change st)

theorem Declared.trans {st st₁ st₂ : Static} {n : Nat} {code₁ code₂ : List Instruction}
    {env₁ env₂ : Env} (h₁ : Declared st n st₁ code₁ env₁) (h₂ : Declared st₁ n st₂ code₂ env₂) :
    Declared st n st₂ (code₁ ++ code₂) env₂ where
  static := h₂.static
  labels := h₂.labels
  code := by rw [h₁.code, h₂.code, erase_nil, List.append_nil]
  typed := trivial
  scalar h := h₂.scalar (h₁.scalar h)

theorem declareExternal_declares (token : Token) {kind : SymbolKind} {ty : Ty}
    (hty : kind.hasStorage = true → ty.IsScalar) :
    Declares (declareExternal (.read token) kind ty) fun st =>
      st.declareExternal (.read token) kind ty := by
  intro env
  simp only [declareExternal, Terminal.value?_read, ensures_discard]
  rw [ensures_withScopes]
  exact ⟨rfl, rfl, rfl, trivial, fun h => ⟨h.symbols.declareExternal hty, h.members⟩⟩

theorem declareExternals_declares (names : Separated Terminal) {ty : Ty} (hty : ty.IsScalar) :
    Declares (discard (names.lower fun name => do name.lower; declareExternal name .var ty))
      fun st => names.toList.foldl (fun st name => st.declareExternal name .var ty) st := by
  intro env
  rw [ensures_discard]
  refine Separated.ensures_lower
    (R := fun names env _ code env' =>
      Declared env.static env.nextLabel
        (names.foldl (fun st name => st.declareExternal name .var ty) env.static) code env')
    ?_ ?_ ?_ names env
  · intro env
    exact ⟨rfl, rfl, rfl, trivial, id⟩
  · intro name more env
    simp only [ensures_bind, ensures_terminal]
    rintro token rfl
    refine (declareExternal_declares token fun _ => hty).ensures env.static env.nextLabel rfl rfl ?_
    intro code env₁ h₁ _ code' env' h₂
    rw [h₁.static, h₁.labels] at h₂
    exact h₁.trans h₂
  · intro names env token _ code env' h
    exact h

theorem lowerScalarSpecs_ensures (specs : Option (Separated ScalarSpec)) (env : Env) :
    (Separated.lower? specs ScalarSpec.lower).Ensures env fun types code env' =>
      types = (Separated.toList? specs).map ScalarSpec.ty ∧ code = [] ∧ Passed env env' := by
  refine Separated.ensures_lower?
    (R := fun specs env types code env' =>
      types = specs.map ScalarSpec.ty ∧ code = [] ∧ Passed env env') ?_ ?_ ?_ specs env
  · intro env
    exact ⟨rfl, rfl, Passed.refl env⟩
  · intro spec more env
    refine (spec.lower_ensures env).mono ?_
    rintro ty code env₁ ⟨rfl, -, rfl, hpassed₁⟩ types code' env' ⟨rfl, rfl, hpassed₂⟩
    exact ⟨rfl, rfl, hpassed₁.trans hpassed₂⟩
  · rintro specs env token types code env' ⟨htypes, hcode, hpassed⟩
    exact ⟨htypes, hcode, Passed.trans ⟨token, rfl⟩ hpassed⟩

theorem lowerExternalParams_declares (name : Terminal) (params : Option ExternalParams) :
    Declares (lowerExternalParams name params) fun st =>
      match params with
      | none => st
      | some params =>
          { st with
            signatures := st.signatures.register name.valueD
              ⟨name.valueD, (Separated.toList? params.types).map ScalarSpec.ty, .undefined⟩ } := by
  intro env
  cases params with
  | none =>
    rw [lowerExternalParams, ensures_pure]
    exact ⟨rfl, rfl, rfl, trivial, id⟩
  | some params =>
    simp only [lowerExternalParams, registerSignature, ensures_bind, ensures_consume,
      ensures_terminal, ensures_modifyEnv]
    refine (lowerScalarSpecs_ensures params.types _).mono ?_
    rintro types code env₁ ⟨rfl, rfl, token₁, rfl⟩ token₂ _
    exact ⟨rfl, rfl, rfl, trivial, fun h => ⟨h.symbols, h.members⟩⟩

theorem External.lower_declares (e : External) : Declares e.lower e.declare := by
  intro env
  cases e with
  | missing keyword next => simp [External.lower]
  | const keyword constant spec name semicolon =>
    simp only [External.lower, ensures_bind, ensures_consume]
    refine (spec.lower_ensures _).mono ?_
    rintro ty code env₁ ⟨rfl, hscalar, rfl, token₁, rfl⟩
    simp only [ensures_terminal]
    rintro nameToken rfl
    refine (declareExternal_declares nameToken fun _ => hscalar).ensures env.static env.nextLabel
      rfl rfl ?_
    intro code env₂ h token₂ _
    exact h.past token₂
  | procedure keyword mark name params semicolon =>
    simp only [External.lower, ensures_bind, ensures_consume, ensures_terminal]
    rintro nameToken rfl
    refine (declareExternal_declares nameToken (by simp [SymbolKind.hasStorage])).ensures env.static
      env.nextLabel rfl rfl ?_
    intro code env₁ h₁
    refine (lowerExternalParams_declares (.read nameToken) params).ensures _ _ h₁.static
      h₁.labels ?_
    intro code' env₂ h₂ token₂ _
    have hcode : code ++ (code' ++ []) = [] := by
      rw [h₁.code, h₂.code, erase_nil, List.append_nil, List.append_nil]
    have hdeclare : (External.procedure keyword mark (.read nameToken) params semicolon).declare
        env.static = env₂.static := by
      rw [h₂.static]
      cases params <;> rfl
    exact ⟨hdeclare.symm, h₂.labels, hcode, trivial,
      fun h => by rw [hdeclare, h₂.static]; exact h₂.scalar (h₁.scalar h)⟩
  | vars keyword spec names semicolon =>
    simp only [External.lower, ensures_bind, ensures_consume]
    refine (spec.lower_ensures _).mono ?_
    rintro ty code env₁ ⟨rfl, hscalar, rfl, token₁, rfl⟩
    refine (declareExternals_declares names hscalar).ensures env.static env.nextLabel rfl rfl ?_
    intro code env₂ h
    rw [ensures_terminal]
    intro token _
    exact h.past token

/-! ## Programs -/

def partsLabels : List Part → Nat
  | [] => 0
  | part :: parts => part.labels + partsLabels parts

theorem partsLabels_append (first second : List Part) :
    partsLabels (first ++ second) = partsLabels first + partsLabels second := by
  induction first with
  | nil => simp [partsLabels]
  | cons part parts ih => simp [partsLabels, ih, Nat.add_assoc]

theorem partsCode_append (first second : List Part) (n : Nat) :
    partsCode (first ++ second) n =
      partsCode first n ++ partsCode second (n + partsLabels first) := by
  induction first generalizing n with
  | nil => simp [partsCode, partsLabels]
  | cons part parts ih => simp [partsCode, partsLabels, ih, Nat.add_assoc]

abbrev RealizedParts (st : Static) (n : Nat) (meaning : List Part × Static) :
    List Instruction → Env → Prop :=
  Realized st meaning.2 n (partsLabels meaning.1) (partsCode meaning.1 n)
    (st.Scalar → ∀ part ∈ meaning.1, part.WellTyped)

abbrev RealizesParts (x : Lowering Unit) (meaning : Static → List Part × Static) : Prop :=
  Produces x fun st n => RealizedParts st n (meaning st)

theorem ProgramItem.lower_realizes (item : ProgramItem) :
    RealizesParts item.lower item.elaborate := by
  intro env
  cases item with
  | declaration d =>
    refine (d.lower_realizes env).mono ?_
    intro _ code env' h
    refine ⟨h.static, ?_, ?_, ?_, h.scalar⟩
    · simpa [ProgramItem.elaborate, partsLabels, Part.labels] using h.labels
    · simpa [ProgramItem.elaborate, partsCode, Part.code] using h.code
    · simpa [ProgramItem.elaborate, Part.WellTyped] using fun _ => h.typed
  | procedure p =>
    refine (p.lower_realizes env).mono ?_
    intro _ code env' h
    refine ⟨h.static, ?_, ?_, ?_, h.scalar⟩
    · simpa [ProgramItem.elaborate, partsLabels, Part.labels] using h.labels
    · simpa [ProgramItem.elaborate, partsCode, Part.code] using h.code
    · simpa [ProgramItem.elaborate, Part.WellTyped] using h.typed
  | external e =>
    refine (e.lower_declares env).mono ?_
    intro _ code env' h
    exact ⟨h.static, h.labels, h.code, by simp [ProgramItem.elaborate], h.scalar⟩
  | skipped token => simp [ProgramItem.lower]

theorem lowerProgramItems_realizes (items : List ProgramItem) :
    RealizesParts (lowerProgramItems items) (elaborateItems items) := by
  induction items with
  | nil =>
    intro env
    rw [lowerProgramItems, ensures_pure]
    exact ⟨rfl, rfl, rfl, by simp [elaborateItems], id⟩
  | cons item more ih =>
    intro env
    simp only [lowerProgramItems, ensures_bind]
    refine (item.lower_realizes env).mono ?_
    intro _ code env₁ h₁
    refine ih.ensures _ _ h₁.static h₁.labels ?_
    intro code' env₂ h₂
    refine ⟨h₂.static, ?_, ?_, ?_, fun h => h₂.scalar (h₁.scalar h)⟩
    · simp [elaborateItems, h₂.labels, partsLabels_append, Nat.add_assoc]
    · simp [elaborateItems, h₁.code, h₂.code, partsCode_append]
    · intro hscalar part hpart
      rcases List.mem_append.mp hpart with hpart | hpart
      · exact h₁.typed hscalar part hpart
      · exact h₂.typed (h₁.scalar hscalar) part hpart

namespace Program

def parts (p : Program) : List Part := p.elaborate.1

/-- What names mean at the end of the program. -/
def final (p : Program) : Static := p.elaborate.2

/-- The code of the program, without the header. -/
def code (p : Program) : List Emitted := partsCode p.parts 0

def globals (p : Program) : Scope := p.final.scopes.global?.getD .empty

def externals (p : Program) : Scope := p.final.scopes.externals

theorem lower_ensures (p : Program) (first : Token) :
    p.lower.Ensures (.start first) fun _ code env' =>
      env'.scopes = p.final.scopes ∧ env'.nextLabel = partsLabels p.parts ∧
        code = erase p.code ∧ (∀ part ∈ p.parts, part.WellTyped) ∧ p.final.Scalar := by
  simp only [lower, ensures_bind, ensures_terminal, ensures_modifyEnv, ensures_env]
  intro token₁ _ token₂ _ token₃ _
  refine (lowerProgramItems_realizes p.items).ensures ⟨ScopeStack.empty.openScope, .empty, .empty⟩ 0
    rfl rfl ?_
  intro code env₁ h token₄ _
  have hstart : Static.Scalar ⟨ScopeStack.empty.openScope, .empty, .empty⟩ := by
    refine ⟨⟨?_, ?_⟩, ?_⟩
    · simp [ScopeStack.openScope, ScopeStack.empty, Scope.empty]
    · simp [ScopeStack.openScope, ScopeStack.empty, Scope.empty]
    · simp [StructTable.empty]
  have hscopes : env₁.scopes = p.final.scopes := congrArg Static.scopes h.static
  have hlabels : env₁.nextLabel = partsLabels p.parts := h.labels.trans (Nat.zero_add _)
  have hcode : code = erase p.code := h.code
  split
  · simp only [ensures_bind, ensures_warn, ensures_terminal]
    intro token₅ _
    exact ⟨hscopes, hlabels, by simp [hcode], h.typed hstart, h.scalar hstart⟩
  · rw [ensures_terminal]
    intro token₅ _
    exact ⟨hscopes, hlabels, by simp [hcode], h.typed hstart, h.scalar hstart⟩

end Program

/-- The tree of a source text. -/
def parse (source file : String) : Except PlacedFault Program := do
  let tokens ← scan source file
  let window := Window.ofTokens tokens file
  return (window.readProgram .full window.budget).1

/-- What a compilation without errors says about the program that it compiles. -/
structure Program.CompilesTo (p : Program) (c : Compilation) : Prop where
  listing : c.listing = header p.globals p.externals ++ erase p.code
  typed : ∀ part ∈ p.parts, part.WellTyped
  scalar : p.final.Scalar

/-- The listing of a program that compiles without errors is the code of its elaborated parts. -/
theorem exists_compilesTo {source file : String} {minDistance : Nat} {c : Compilation}
    (hcompile : compile source file minDistance = .ok c) (hcount : c.errorCount = 0) :
    ∃ p, parse source file = .ok p ∧ p.CompilesTo c := by
  obtain ⟨tokens, hscan, rfl⟩ := exists_tokens_of_compile hcompile
  have hparse : parse source file =
      .ok ((Window.ofTokens tokens file).readProgram .full (Window.ofTokens tokens file).budget).1 := by
    unfold parse
    rw [hscan]
    rfl
  refine ⟨_, hparse, ?_⟩
  rw [compileTokens, compileWindow_eq] at hcount ⊢
  dsimp only at hcount
  have hfaultless := (Reporter.count_new_hearAll_eq_zero_iff minDistance _).mp hcount
  obtain ⟨hscopes, -, hcode, htyped, hscalar⟩ := Program.lower_ensures _ _ hfaultless
  refine ⟨?_, htyped, hscalar⟩
  simp only [Window.outcome, hscopes, hcode]
  rfl

/-- A program with a nested procedure, a call and a loop. -/
def sampleText : String :=
  "program p \x7b int t; void f(int n) \x7b void g(bool b) \x7b t := b ? n : 2; \x7d " ++
    "g(n < t); for (t := 0; t < n; t := t + 1) write t; \x7d \x7d"

theorem sampleText_accepted :
    ∃ c, compile sampleText "sample" 2 = .ok c ∧ c.errorCount = 0 := by
  have heval : (compile sampleText "sample" 2).toOption.map (·.errorCount) = some 0 := by
    decide +kernel
  cases hcompile : compile sampleText "sample" 2 with
  | error fault => simp [hcompile, Except.toOption] at heval
  | ok c => exact ⟨c, rfl, by simpa [hcompile, Except.toOption] using heval⟩

end SlotLang
