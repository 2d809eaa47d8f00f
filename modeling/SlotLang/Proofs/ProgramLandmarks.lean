import SlotLang.Proofs.Landmarks
import SlotLang.Proofs.ProcedureCode

/-!
# Programs and their landmarks

The landmarks of statements, procedures and whole programs, and the proof that lowering keeps step
with them.  A switch is the one construct that does not do everything where it stands: its cases
compute the subject again, with the names as they were resolved in front of the first case.
-/

namespace SlotLang

open Lowering Aggregate

/-! ## Statements -/

mutual

def Stmt.landmarks : Stmt → List Landmark
  | .missing _ | .broken _ | .dangling _ _ => []
  | .assign target _ value _ => (value.references ++ target.stores).map .refer
  | .choose target _ guard _ first _ second _ =>
      (guard.references ++ (first.references ++ (target.stores ++
        (second.references ++ target.stores)))).map .refer
  | .call _ _ arguments _ _ =>
      ((Separated.toList? arguments).flatMap Expr.references).map .refer
  | .branch _ condition body => condition.test.references.map .refer ++ body.landmarks
  | .branchElse _ condition body _ alternative =>
      condition.test.references.map .refer ++ (body.landmarks ++ alternative.landmarks)
  | .whileLoop _ condition body => condition.test.references.map .refer ++ body.landmarks
  | .forLoop _ _ init _ test _ step _ body =>
      (init.references ++ (test.references ++ step.references)).map .refer ++ body.landmarks
  | .switch _ _ subject _ _ cases _ fallbackBody _ =>
      .subject subject.references :: (casesLandmarks cases ++ stmtsLandmarks fallbackBody ++ [.settled])
  | .read _ target _ => target.stores.map .refer
  | .write _ operands _ => (operands.toList.flatMap Expr.references).map .refer
  | .block _ items _ => blockLandmarks items

def stmtsLandmarks : List Stmt → List Landmark
  | [] => []
  | s :: more => s.landmarks ++ stmtsLandmarks more

def casesLandmarks : List Case → List Landmark
  | [] => []
  | .mk _ label _ body :: more =>
      .again :: (label.references.map .refer ++ stmtsLandmarks body) ++ casesLandmarks more

def blockLandmarks : List BlockItem → List Landmark
  | [] => []
  | item :: more => item.landmarks ++ blockLandmarks more

def BlockItem.landmarks : BlockItem → List Landmark
  | .declaration d => d.landmarks
  | .statement s => s.landmarks
  | .skipped _ => []

end

section

variable {subjects : List (List Access)} {body alternative : Lowering Unit}
  {inside other : List Landmark}

theorem lowerBranch_visits (hbody : Visits subjects body inside)
    (halternative : Visits subjects alternative other) (keyword : Token) (condition : Condition) :
    Visits subjects (lowerBranch keyword condition body alternative)
      (condition.test.references.map .refer ++ (inside ++ other)) :=
  .silently (fun _ => .consume _) fun _ => .bind (.still condition.lower_still) fun _ =>
    .silently (fun _ => .freshLabel) fun _ => .silently (fun _ => .emit rfl) fun _ =>
      hbody.bind fun _ => .silently (fun _ => .freshLabel) fun _ =>
        .silently (fun _ => .emit rfl) fun _ => .silently (fun _ => .land _) fun _ =>
          halternative.andThen fun _ _ => .land _

theorem lowerWhile_visits (hbody : Visits subjects body inside) (keyword : Token)
    (condition : Condition) :
    Visits subjects (lowerWhile keyword condition body)
      (condition.test.references.map .refer ++ inside) :=
  .silently (fun _ => .consume _) fun _ => .silently (fun _ => .freshLabel) fun _ =>
    .silently (fun _ => .freshLabel) fun _ => .silently (fun _ => .land _) fun _ =>
      .bind (.still condition.lower_still) fun _ => .silently (fun _ => .emit rfl) fun _ =>
        hbody.andThen fun _ _ => .silently (.emit rfl) fun _ => .land _

theorem lowerFor_visits (hbody : Visits subjects body inside) (keyword : Token)
    (opening : Terminal) (init : Assignment) (afterInit : Terminal) (test : Expr)
    (afterTest : Terminal) (step : Assignment) (closing : Terminal) :
    Visits subjects (lowerFor keyword opening init afterInit test afterTest step closing body)
      ((init.references ++ (test.references ++ step.references)).map .refer ++ inside) := by
  rw [List.map_append, List.map_append, List.append_assoc, List.append_assoc]
  exact .silently (fun _ => .consume _) fun _ => .silently (fun _ => .terminal _) fun _ =>
    .bind (.still init.lower_still) fun _ => .silently (fun _ => .terminal _) fun _ =>
      .silently (fun _ => .freshLabel) fun _ => .silently (fun _ => .emit rfl) fun _ =>
        .silently (fun _ => .freshLabel) fun _ => .silently (fun _ => .freshLabel) fun _ =>
          .silently (fun _ => .land _) fun _ => .bind (.still test.lower_still) fun _ =>
            .silently (fun _ => .terminal _) fun _ => .bind (.still step.lower_still) fun _ =>
              .silently (fun _ => .terminal _) fun _ => .silently (fun _ => .check _) fun _ =>
                .silently (fun _ => .emit rfl) fun _ => hbody.andThen fun _ _ =>
                  .silently (.land _) fun _ => .silently (.emit rfl) fun _ => .land _

/-- The subject is computed again by its code, with the accesses that it had in front of the cases. -/
theorem lowerCase_visits {known : List Access} {code : List Instruction}
    (hcode : marks code = known.map Access.mark) (hbody : Visits (known :: subjects) body inside)
    (subjectTy : Ty) (endLabel : Label) (keyword : Token) (label : Expr) (colon : Terminal) :
    Visits (known :: subjects) (lowerCase subjectTy code endLabel keyword label colon body)
      (.again :: (label.references.map .refer ++ inside)) := by
  have hagain : Visits (known :: subjects) (emitAll code) [.again] := by
    refine fun env => ⟨?_, rfl, fun _ => ⟨trivial, trivial⟩⟩
    exact hcode.trans (List.append_nil _).symm
  exact .silently (fun _ => .consume _) fun _ => hagain.bind fun _ =>
    .bind (.still label.lower_still) fun _ => .silently (fun _ => .terminal _) fun _ =>
      .silently (fun _ => .check _) fun _ => .silently (fun _ => .freshLabel) fun _ =>
        .silently (fun _ => .emit rfl) fun _ => .silently (fun _ => .emit rfl) fun _ =>
          hbody.andThen fun _ _ => .silently (.emit rfl) fun _ => .land _

theorem lowerFallback_still (st : ScopeStack) (fallback : Option (Token × Terminal)) :
    StillAt st (lowerFallback fallback) [] := by
  cases fallback with
  | none => exact .pure ()
  | some fallback => exact .silently (.consume _) fun _ => .terminal _

/-- A phrase inside of a switch. -/
theorem Visits.switch {α : Type} {x : Lowering α} {env : Env} {references : List Reference}
    (h : Visits (accessesAt env.scopes references :: subjects) x inside) :
    (x env).Visits (env.stage subjects) (.subject references :: (inside ++ [.settled])) := by
  obtain ⟨hmarks, hstage, haccepted⟩ := h env
  refine ⟨?_, ?_, fun hfaultless => ⟨trivial, ?_⟩⟩
  · rw [hmarks, Stage.marks, Stage.marks_append]
    simp [Stage.marksOf, Stage.accesses, Stage.marks]
    rfl
  · rw [Stage.run_cons, Stage.run_append]
    exact congrArg (·.step .settled) hstage
  · rw [Stage.along_append]
    exact ⟨haccepted hfaultless, trivial, trivial⟩

theorem lowerSwitch_visits {cases : Ty → List Instruction → Label → Lowering Unit}
    (hcases : ∀ {known : List Access} {code : List Instruction},
      marks code = known.map Access.mark → ∀ ty label,
        Visits (known :: subjects) (cases ty code label) inside)
    (hbody : ∀ subjects, Visits subjects body other) (keyword : Token) (opening : Terminal)
    (subject : Expr) (closing brace : Terminal) (fallback : Option (Token × Terminal))
    (closingBrace : Terminal) :
    Visits subjects
      (lowerSwitch keyword opening subject closing brace cases fallback body closingBrace)
      (.subject subject.references :: (inside ++ other ++ [.settled])) := by
  refine .silently (fun _ => .consume _) fun _ => .silently (fun _ => .terminal _) fun _ env => ?_
  have hsubject := subject.lower_still env.scopes env rfl
  have hcaptured : (captured subject.lower env).Visits (env.stage subjects) [] := by
    refine ⟨rfl, ?_, fun _ => trivial⟩
    exact (congrArg₂ (⟨·, ·, subjects⟩ : _ → _ → Stage) hsubject.scopes hsubject.structs)
  have hcode : marks (captured subject.lower env).value.2 =
      (accessesAt (captured subject.lower env).env.scopes subject.references).map Access.mark := by
    have hmarks := hsubject.marks
    rw [← hsubject.scopes] at hmarks
    exact hmarks
  refine hcaptured.bind (Visits.switch ?_)
  exact .silently (fun _ => .terminal _) fun _ => .silently (fun _ => .terminal _) fun _ =>
    .silently (fun _ => .freshLabel) fun label => (hcases hcode _ label).bind fun _ =>
      .silently (fun st => lowerFallback_still st fallback) fun _ => (hbody _).andThen fun _ _ =>
        .silently (.terminal _) fun _ => .land _

end

mutual

theorem Stmt.lower_visits : ∀ (s : Stmt) (subjects : List (List Access)),
    Visits subjects s.lower s.landmarks
  | .missing _, _ => .still fun _ => .refuseBefore _ _
  | .broken target, _ => .still fun st => (target.lower_still st).discard
  | .dangling target _, _ =>
    .still fun st => .silently (target.lowerTarget_still st).discard fun _ => .refuseBefore _ _
  | .assign target becomes value semicolon, _ =>
    .still fun st => lowerAssign_still st target becomes value semicolon
  | .choose target becomes guard question first colon second semicolon, _ =>
    .still fun st => lowerChoose_still st target becomes guard question first colon second semicolon
  | .call callee opening arguments closing semicolon, _ =>
    .still fun st => lowerCall_still st callee opening arguments closing semicolon
  | .branch keyword condition body, subjects => by
    rw [Stmt.lower, Stmt.landmarks, ← List.append_nil body.landmarks]
    exact lowerBranch_visits (body.lower_visits subjects) (.pure ()) keyword condition
  | .branchElse keyword condition body otherwise alternative, subjects => by
    rw [Stmt.lower, Stmt.landmarks]
    exact lowerBranch_visits (body.lower_visits subjects)
      (.silently (fun _ => .consume _) fun _ => alternative.lower_visits subjects) keyword condition
  | .whileLoop keyword condition body, subjects =>
    lowerWhile_visits (body.lower_visits subjects) keyword condition
  | .forLoop keyword opening init afterInit test afterTest step closing body, subjects =>
    lowerFor_visits (body.lower_visits subjects) keyword opening init afterInit test afterTest step
      closing
  | .switch keyword opening subject closing brace cases fallback fallbackBody closingBrace, subjects =>
    lowerSwitch_visits (fun hcode ty label => lowerCases_visits cases subjects hcode ty label)
      (lowerStmts_visits fallbackBody) keyword opening subject closing brace fallback closingBrace
  | .read keyword target semicolon, _ => .still fun st => lowerRead_still st keyword target semicolon
  | .write keyword operands semicolon, _ =>
    .still fun st => lowerWrite_still st keyword operands semicolon
  | .block opening items closing, subjects => by
    rw [Stmt.lower, Stmt.landmarks]
    exact .silently (fun _ => .consume _) fun _ =>
      (lowerBlockItems_visits items subjects).andThen fun _ _ => .terminal _

theorem lowerStmts_visits : ∀ (stmts : List Stmt) (subjects : List (List Access)),
    Visits subjects (lowerStmts stmts) (stmtsLandmarks stmts)
  | [], _ => .pure ()
  | s :: more, subjects => (s.lower_visits subjects).bind fun _ => lowerStmts_visits more subjects

theorem lowerCases_visits : ∀ (cases : List Case) (subjects : List (List Access))
    {known : List Access} {code : List Instruction}, marks code = known.map Access.mark →
      ∀ ty label, Visits (known :: subjects) (lowerCases ty code label cases) (casesLandmarks cases)
  | [], _, _, _, _, _, _ => .pure ()
  | .mk keyword label colon body :: more, subjects, _, _, hcode, ty, endLabel =>
    (lowerCase_visits hcode (lowerStmts_visits body _) ty endLabel keyword label colon).bind
      fun _ => lowerCases_visits more subjects hcode ty endLabel

theorem lowerBlockItems_visits : ∀ (items : List BlockItem) (subjects : List (List Access)),
    Visits subjects (lowerBlockItems items) (blockLandmarks items)
  | [], _ => .pure ()
  | item :: more, subjects =>
    (item.lower_visits subjects).bind fun _ => lowerBlockItems_visits more subjects

theorem BlockItem.lower_visits : ∀ (item : BlockItem) (subjects : List (List Access)),
    Visits subjects item.lower item.landmarks
  | .declaration d, _ => d.lower_visits
  | .statement s, subjects => s.lower_visits subjects
  | .skipped _, _ => .still fun _ => .skip _ _

end

/-! ## Procedures and programs -/

def Param.landmarks (p : Param) : List Landmark :=
  p.name.value?.toList.map fun name => .parameter name p.ty.ty

/-- The arguments lie on the stack, the last one on top. -/
def argumentLandmarks (count : Nat) : List Landmark :=
  (List.range count).reverse.map .argument

mutual

def Procedure.landmarks : Procedure → List Landmark
  | .mk _ name _ params _ _ body _ =>
      .enter name.valueD :: ((Separated.toList? params).flatMap Param.landmarks ++
        (argumentLandmarks (Separated.toList? params).length ++ bodyLandmarks body) ++ [.leave])

def bodyLandmarks : List BodyItem → List Landmark
  | [] => []
  | item :: more => item.landmarks ++ bodyLandmarks more

def BodyItem.landmarks : BodyItem → List Landmark
  | .declaration d => d.landmarks
  | .statement s => s.landmarks
  | .nested p => p.landmarks
  | .skipped _ => []

end

def externalLandmarks (name : Terminal) (kind : SymbolKind) (ty : Ty) : List Landmark :=
  name.value?.toList.map fun name => .external name kind ty

def External.landmarks : External → List Landmark
  | vars _ spec names _ => names.toList.flatMap fun name => externalLandmarks name .var spec.ty
  | const _ _ spec name _ => externalLandmarks name .const spec.ty
  | procedure _ _ name _ _ => externalLandmarks name .procedure .undefined
  | missing _ _ => []

def ProgramItem.landmarks : ProgramItem → List Landmark
  | declaration d => d.landmarks
  | procedure p => p.landmarks
  | external e => e.landmarks
  | skipped _ => []

def Program.landmarks (p : Program) : List Landmark := p.items.flatMap ProgramItem.landmarks

section

variable {subjects : List (List Access)}

theorem Param.lower_visits (p : Param) : Visits subjects p.lower p.landmarks := by
  refine .ofSpec (.silently (fun _ => .terminal _) fun _ => ?_)
  unfold Param.landmarks
  cases p.name.value? with
  | none => exact .silently (fun _ => .pure _) fun _ => .pure _
  | some name =>
    have hdeclare : Visits subjects
        (withScopes fun st => st.declareLocal name .var p.ty.ty) [.parameter name p.ty.ty] :=
      .single (fun _ => rfl) fun _ => ⟨rfl, rfl, fun _ => trivial⟩
    exact hdeclare.discard.andThen fun _ _ => .pure _

theorem Separated.length_lower {α β : Type} (items : Separated α) (f : α → Lowering β) (env : Env) :
    (items.lower f env).value.length = items.toList.length := by
  have hothers : ∀ (others : List (Token × α)) (env : Env),
      (lower.lowerOthers f others env).value.length = others.length := by
    intro others
    induction others with
    | nil => exact fun _ => rfl
    | cons item others ih => exact fun env => congrArg (· + 1) (ih _)
  simp [Separated.lower, Separated.toList, hothers]

theorem lowerParams_length (params : Option (Separated Param)) (env : Env) :
    (Separated.lower? params Param.lower env).value.length = (Separated.toList? params).length := by
  cases params with
  | none => rfl
  | some params => exact params.length_lower Param.lower env

theorem storeArguments_visits (count : Nat) :
    Visits subjects (emitAll (storeArguments count)) (argumentLandmarks count) := by
  unfold storeArguments argumentLandmarks
  generalize (List.range count).reverse = offsets
  induction offsets with
  | nil => exact .pure ()
  | cons k offsets ih =>
    intro env
    obtain ⟨hmarks, hstage, haccepted⟩ := ih env
    exact ⟨congrArg (Access.mark (.argument k) :: ·) hmarks, hstage,
      fun hfaultless => ⟨trivial, haccepted hfaultless⟩⟩

theorem lowerProcedureBody_visits {body : Lowering Unit} {inside : List Landmark}
    (hbody : Visits subjects body inside) (label : String) (name opening : Terminal)
    (params : Option (Separated Param)) (closing brace closingBrace : Terminal) :
    Visits subjects
      (lowerProcedureBody label name opening params closing brace body closingBrace)
      ((Separated.toList? params).flatMap Param.landmarks ++
        (argumentLandmarks (Separated.toList? params).length ++ inside)) := by
  refine .silently (fun _ => .terminal _) fun _ env => ?_
  refine (Separated.lower?_visits Param.lower_visits params env).bind ?_
  rw [← lowerParams_length params env]
  refine Visits.silently (fun _ => .terminal _) (fun _ => Visits.silently ?_ fun _ =>
    (storeArguments_visits _).bind fun _ => .silently (fun _ => .terminal _) fun _ =>
      hbody.andThen fun _ _ => .terminal _) _
  exact fun _ _ _ => ⟨rfl, rfl, rfl⟩

theorem openProcedure_stage (keyword : Token) (name : Terminal) (env : Env) :
    (openProcedure keyword name env).env.stage subjects =
      (env.stage subjects).step (.enter name.valueD) := by
  cases name <;> rfl

theorem lowerProcedure_visits {body : Lowering Unit} {inside : List Landmark}
    (hbody : Visits subjects body inside) (keyword : Token) (name opening : Terminal)
    (params : Option (Separated Param)) (closing brace closingBrace : Terminal) :
    Visits subjects (lowerProcedure keyword name opening params closing brace body closingBrace)
      (.enter name.valueD :: ((Separated.toList? params).flatMap Param.landmarks ++
        (argumentLandmarks (Separated.toList? params).length ++ inside) ++ [.leave])) := by
  intro env
  obtain ⟨hmarks, hstage, haccepted⟩ := lowerProcedureBody_visits hbody
    (openProcedure keyword name env).value name opening params closing brace closingBrace
    (openProcedure keyword name env).env
  have hcode : (openProcedure keyword name env).code = [] := by cases name <;> rfl
  rw [openProcedure_stage] at hmarks hstage haccepted
  refine ⟨?_, ?_, fun hfaultless => ⟨trivial, ?_⟩⟩
  · have hentry : ∀ frame more, marks (.labelled (.named (env.scopes.labelFor name.valueD))
        (.enter frame) :: more) =
          .entry (some (.named (env.scopes.labelFor name.valueD))) :: marks more := fun _ _ => rfl
    simp only [lowerProcedure, bind_apply, captured, emitAll, emit, hcode, closeProcedure_code,
      openProcedure_value, List.nil_append, List.singleton_append, hentry, marks_append] at hmarks ⊢
    rw [hmarks, Stage.marks]
    exact congrArg (Mark.entry _ :: ·) (Stage.marks_append _ _ [.leave]).symm
  · rw [Stage.run_cons, Stage.run_append, ← hstage]
    rfl
  · rw [Stage.along_append]
    refine ⟨haccepted ?_, trivial, trivial⟩
    simp only [lowerProcedure, bind_apply, captured, faultless_append] at hfaultless
    exact hfaultless.2.1

end

mutual

theorem Procedure.lower_visits : ∀ (p : Procedure) (subjects : List (List Access)),
    Visits subjects p.lower p.landmarks
  | .mk keyword name opening params closing brace body closingBrace, subjects =>
    lowerProcedure_visits (lowerBodyItems_visits body subjects) keyword name opening params closing
      brace closingBrace

theorem lowerBodyItems_visits : ∀ (items : List BodyItem) (subjects : List (List Access)),
    Visits subjects (lowerBodyItems items) (bodyLandmarks items)
  | [], _ => .pure ()
  | item :: more, subjects =>
    (item.lower_visits subjects).bind fun _ => lowerBodyItems_visits more subjects

theorem BodyItem.lower_visits : ∀ (item : BodyItem) (subjects : List (List Access)),
    Visits subjects item.lower item.landmarks
  | .declaration d, _ => d.lower_visits
  | .statement s, subjects => s.lower_visits subjects
  | .nested p, subjects =>
    .silently (fun _ => .freshLabel) fun _ => .silently (fun _ => .emit rfl) fun _ =>
      (p.lower_visits subjects).andThen fun _ _ => .land _
  | .skipped _, _ => .still fun _ => .skip _ _

end

section

variable {subjects : List (List Access)}

theorem declareExternal_visits (name : Terminal) (kind : SymbolKind) (ty : Ty) :
    Visits subjects (declareExternal name kind ty) (externalLandmarks name kind ty) := by
  unfold declareExternal externalLandmarks
  cases name.value? with
  | none => exact .pure ()
  | some name =>
    have hdeclare : Visits subjects
        (withScopes fun st => st.declareExternal name kind ty) [.external name kind ty] :=
      .single (fun _ => rfl) fun _ => ⟨rfl, rfl, fun _ => trivial⟩
    exact hdeclare.discard

theorem lowerExternalParams_still (st : ScopeStack) (name : Terminal)
    (params : Option ExternalParams) : StillAt st (lowerExternalParams name params) [] := by
  cases params with
  | none => exact .pure ()
  | some params =>
    have htypes := Separated.lower?_still (ScalarSpec.lower_still st) params.types
    rw [List.flatMap_eq_nil_iff.mpr fun _ _ => rfl] at htypes
    exact .silently (.consume _) fun _ => .silently htypes fun _ =>
      .silently (.terminal _) fun _ _ _ => ⟨rfl, rfl, rfl⟩

theorem External.lower_visits (e : External) : Visits subjects e.lower e.landmarks := by
  cases e with
  | vars keyword spec names semicolon =>
    refine .silently (fun _ => .consume _) fun _ => .ofSpec ?_
    have hname (name : Terminal) : Visits subjects (do
        name.lower
        declareExternal name .var spec.ty) (externalLandmarks name .var spec.ty) :=
      .silently (fun _ => .terminal _) fun _ => declareExternal_visits name .var spec.ty
    exact (Separated.lower_visits hname names).discard.andThen fun _ _ => .terminal _
  | const keyword constant spec name semicolon =>
    exact .silently (fun _ => .consume _) fun _ => .silently (fun _ => .consume _) fun _ =>
      .ofSpec (.silently (fun _ => .terminal _) fun _ =>
        (declareExternal_visits name .const spec.ty).andThen fun _ _ => .terminal _)
  | procedure keyword mark name params semicolon =>
    exact .silently (fun _ => .consume _) fun _ => .silently (fun _ => .consume _) fun _ =>
      .silently (fun _ => .terminal _) fun _ =>
        (declareExternal_visits name .procedure .undefined).andThen fun _ st =>
          .silently (lowerExternalParams_still st name params) fun _ => .terminal _
  | missing keyword next =>
    exact .still fun _ => .silently (.consume _) fun _ => .refuseBefore _ _

theorem ProgramItem.lower_visits (item : ProgramItem) :
    Visits subjects item.lower item.landmarks := by
  cases item with
  | declaration d => exact d.lower_visits
  | procedure p => exact p.lower_visits subjects
  | external e => exact e.lower_visits
  | skipped token => exact .still fun _ => .skip _ _

theorem lowerProgramItems_visits (items : List ProgramItem) :
    Visits subjects (lowerProgramItems items) (items.flatMap ProgramItem.landmarks) := by
  induction items with
  | nil => exact .pure ()
  | cons item items ih => exact item.lower_visits.bind fun _ => ih

end

/-- A program keeps step with its landmarks. -/
theorem Program.lower_visits (p : Program) (first : Token) :
    (p.lower (.start first)).Visits .start p.landmarks := by
  have hitems : Visits [] (do
      lowerProgramItems p.items
      p.closing.lower
      if (← env).scopes.declaresNothing then
        warn ("Warning: Program " ++ p.name.valueD ++ " is empty")
      p.ending.lower) p.landmarks := by
    refine (lowerProgramItems_visits p.items).andThen fun _ st => .silently (.terminal _) fun _ =>
      .silently .env fun env => ?_
    dsimp only
    split
    · exact .silently (.warn _) fun _ => .terminal _
    · exact .terminal _
  let opened := (p.opening.lower (p.name.lower (p.keyword.lower (.start first)).env).env).env
  have hstart : ({ opened with scopes := opened.scopes.openScope } : Env).stage [] = .start := by
    have hpass (t : Terminal) (env : Env) := StillAt.terminal t env rfl
    simp only [Env.stage, opened, (hpass _ _).scopes, (hpass _ _).structs]
    rfl
  obtain ⟨hmarks, hstage, haccepted⟩ := hitems { opened with scopes := opened.scopes.openScope }
  rw [hstart] at hmarks hstage haccepted
  refine ⟨?_, hstage, fun hfaultless => haccepted ?_⟩
  · rw [← hmarks]
    simp [Program.lower, Terminal.lower_code, modifyEnv, opened]
  · simp only [Program.lower, bind_apply, faultless_append] at hfaultless ⊢
    exact hfaultless.2.2.2.2

end SlotLang
