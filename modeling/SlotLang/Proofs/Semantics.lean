import SlotLang.Proofs.Machine

/-!
# Meaning of statements

The meaning of the resolved form of statements, without code or labels.  Terms have values, or none
where something is divided by zero; actions change the memory if they come to an end.  A call has no
meaning here.
-/

namespace SlotLang

/-- The value of a term; there is none if something is divided by zero. -/
def Term.eval? (m : Memory) : Term → Option Int
  | number value => some value
  | boolean value => some (if value then 1 else 0)
  | use u => some (m.store u.cell)
  | negation operand => do
      let a ← operand.eval? m
      return -a
  | arithmetic op left right => do
      let a ← left.eval? m
      let b ← right.eval? m
      op.eval? a b
  | comparison op left right => do
      let a ← left.eval? m
      let b ← right.eval? m
      return op.eval a b

/-- The body of the first case whose label has the value of the subject, if there is such a case.  The
subject is evaluated anew for every case that is tried. -/
def Cases.select? (m : Memory) (subject : Term) : Cases → Option (Option Action)
  | .none => some .none
  | .case label body rest => do
      let a ← subject.eval? m
      let b ← label.eval? m
      if a = b then some (some body) else rest.select? m subject

/-- The action leads from the first memory to the second one. -/
inductive Action.Runs : Action → Memory → Memory → Prop where
  | skip (m : Memory) : Runs .skip m m
  | store {kind : SymbolKind} {u : Use} {value : Term} {m : Memory} {v : Int}
      (hvalue : value.eval? m = some v) : Runs (.store kind u value) m (m.set u.cell v)
  | chooseFirst {u : Use} {guard first second : Term} {m : Memory} {g v : Int}
      (hguard : guard.eval? m = some g) (htrue : g ≠ 0) (hvalue : first.eval? m = some v) :
      Runs (.choose u guard first second) m (m.set u.cell v)
  | chooseSecond {u : Use} {guard first second : Term} {m : Memory} {v : Int}
      (hguard : guard.eval? m = some 0) (hvalue : second.eval? m = some v) :
      Runs (.choose u guard first second) m (m.set u.cell v)
  | read {u : Use} {m m' : Memory} {v : Int} (hread : m.read? = some (v, m')) :
      Runs (.read u) m (m'.set u.cell v)
  | write {value : Term} {m : Memory} {v : Int} (hvalue : value.eval? m = some v) :
      Runs (.write value) m (m.write v)
  | seq {first second : Action} {m m₁ m₂ : Memory} (hfirst : Runs first m m₁)
      (hsecond : Runs second m₁ m₂) : Runs (.seq first second) m m₂
  | branchTrue {test : Term} {body alternative : Action} {m m' : Memory} {t : Int}
      (htest : test.eval? m = some t) (htrue : t ≠ 0) (hbody : Runs body m m') :
      Runs (.branch test body alternative) m m'
  | branchFalse {test : Term} {body alternative : Action} {m m' : Memory}
      (htest : test.eval? m = some 0) (halternative : Runs alternative m m') :
      Runs (.branch test body alternative) m m'
  | loopDone {test : Term} {body : Action} {m : Memory} (htest : test.eval? m = some 0) :
      Runs (.loop test body) m m
  | loopAgain {test : Term} {body : Action} {m m₁ m₂ : Memory} {t : Int}
      (htest : test.eval? m = some t) (htrue : t ≠ 0) (hbody : Runs body m m₁)
      (hrest : Runs (.loop test body) m₁ m₂) : Runs (.loop test body) m m₂
  /-- The step is taken in every round, also in the last one, and after the test. -/
  | roundsDone {test : Term} {u : Use} {step : Term} {body : Action} {m : Memory} {v : Int}
      (htest : test.eval? m = some 0) (hstep : step.eval? m = some v) :
      Runs (.rounds test u step body) m (m.set u.cell v)
  | roundsAgain {test : Term} {u : Use} {step : Term} {body : Action} {m m₁ m₂ : Memory} {t v : Int}
      (htest : test.eval? m = some t) (htrue : t ≠ 0) (hstep : step.eval? m = some v)
      (hbody : Runs body (m.set u.cell v) m₁)
      (hrest : Runs (.rounds test u step body) m₁ m₂) : Runs (.rounds test u step body) m m₂
  | switchCase {subject : Term} {cases : Cases} {fallback body : Action} {m m' : Memory}
      (hselect : cases.select? m subject = some (some body)) (hbody : Runs body m m') :
      Runs (.switch subject cases fallback) m m'
  | switchDefault {subject : Term} {cases : Cases} {fallback : Action} {m m' : Memory}
      (hselect : cases.select? m subject = some none) (hfallback : Runs fallback m m') :
      Runs (.switch subject cases fallback) m m'

mutual

/-- There is no call in the action. -/
def Action.callFree : Action → Bool
  | .call _ _ _ => false
  | .skip | .store _ _ _ | .choose _ _ _ _ | .read _ | .write _ => true
  | .seq first second => first.callFree && second.callFree
  | .branch _ body alternative => body.callFree && alternative.callFree
  | .loop _ body | .rounds _ _ _ body => body.callFree
  | .switch _ cases fallback => cases.callFree && fallback.callFree

def Cases.callFree : Cases → Bool
  | .none => true
  | .case _ body rest => body.callFree && rest.callFree

end

/-- There is no call in the body; there may be some in nested routines. -/
def Body.callFree : Body → Bool
  | .done => true
  | .action a rest => a.callFree && rest.callFree
  | .nested _ _ _ _ rest => rest.callFree

/-- A nested routine is only declared where it stands. -/
def Body.Runs : Body → Memory → Memory → Prop
  | .done, m, m' => m = m'
  | .action a rest, m, m' => ∃ m₁, a.Runs m m₁ ∧ rest.Runs m₁ m'
  | .nested _ _ _ _ rest, m, m' => rest.Runs m m'

end SlotLang
