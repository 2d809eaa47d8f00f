import SlotLang.Session
import SlotLang.Token.Scan

/-!
# Compiling

From a source text to a listing.  Only the scanner can fail; every list of tokens has a listing,
whatever faults are reported on the way.
-/

namespace SlotLang

/-- The outcome of lowering the program that a window shows. -/
def Window.outcome (w : Window) : Outcome Unit :=
  (w.readProgram .full w.budget).1.lower (.start w.ahead)

/-- Compiles a program that is given as tokens. -/
def compileWindow (window : Window) (minDistance : Nat) : Compilation :=
  (Session.start .full window minDistance).program.finish

theorem program_start_eq (w : Window) (minDistance : Nat) :
    (Session.start .full w minDistance).program =
      { grammar := .full
        window := (w.readProgram .full w.budget).2
        env := w.outcome.env
        code := w.outcome.code.toArray
        pending := []
        reporter := (Reporter.new minDistance).hearAll w.outcome.events } := by
  simp only [Session.program, Session.take, Session.perform, Session.start, Session.steps,
    Window.outcome]
  simp

theorem compileWindow_eq (w : Window) (minDistance : Nat) :
    compileWindow w minDistance =
      ⟨header (w.outcome.env.scopes.global?.getD .empty) w.outcome.env.scopes.externals ++
          w.outcome.code,
        ((Reporter.new minDistance).hearAll w.outcome.events).diagnostics,
        ((Reporter.new minDistance).hearAll w.outcome.events).count⟩ := by
  simp only [compileWindow, program_start_eq, Session.finish, Session.scopes]

def compileTokens (tokens : List Token) (file : String) (minDistance : Nat) : Compilation :=
  compileWindow (.ofTokens tokens file) minDistance

/-- Compiles a source text. -/
def compile (source file : String) (minDistance : Nat) : Except PlacedFault Compilation := do
  let tokens ← scan source file
  return compileTokens tokens file minDistance

theorem exists_tokens_of_compile {source file : String} {minDistance : Nat} {c : Compilation}
    (h : compile source file minDistance = .ok c) :
    ∃ tokens, scan source file = .ok tokens ∧ compileTokens tokens file minDistance = c := by
  unfold compile at h
  cases hscan : scan source file with
  | error fault => simp [hscan, Except.bind, bind] at h
  | ok tokens =>
    simp only [hscan, bind, Except.bind, pure, Except.pure, Except.ok.injEq] at h
    exact ⟨tokens, rfl, h⟩

end SlotLang
