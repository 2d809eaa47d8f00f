import SlotLang.Proofs.Faultless
import SlotLang.Proofs.Trace

/-!
# The least distance between faults

A reporter drops faults that follow an earlier one too closely.  How close is too close has no
influence on the events that it hears, so it changes nothing but the list of diagnostics.  Of two
reporters, the one that asks for the greater distance records a part of what the other one records,
and one that asks for no distance records everything.  The first fault is recorded at any distance,
so that success is the same for all of them.
-/

namespace SlotLang

namespace Reporter

/-! ## Two reporters that hear the same -/

/-- Whatever surfaces for `strict` also surfaces for `lax`, now and after any events that both of
them hear. -/
structure Stricter (strict lax : Reporter) : Prop where
  minDistance_le : lax.minDistance ≤ strict.minDistance
  /-- The lax reporter is no farther from letting the next fault surface. -/
  distance_le : lax.minDistance + strict.distance ≤ strict.minDistance + lax.distance
  recorded : strict.recorded.Sublist lax.recorded

namespace Stricter

variable {strict lax : Reporter}

theorem surfaces (h : Stricter strict lax) (hsurfaces : strict.surfaces = true) :
    lax.surfaces = true := by
  have hdistance := h.distance_le
  simp only [Reporter.surfaces, decide_eq_true_eq] at hsurfaces ⊢
  omega

theorem tokenConsumed (h : Stricter strict lax) :
    Stricter strict.tokenConsumed lax.tokenConsumed where
  minDistance_le := h.minDistance_le
  distance_le := by
    have hdistance := h.distance_le
    simp only [Reporter.tokenConsumed]
    omega
  recorded := h.recorded

theorem warn (h : Stricter strict lax) (message : String) (position : Position) :
    Stricter (strict.warn message position) (lax.warn message position) where
  minDistance_le := h.minDistance_le
  distance_le := h.distance_le
  recorded := h.recorded.cons_cons _

/-- Both count from zero after a fault, whether it has surfaced or not. -/
theorem report (h : Stricter strict lax) (e : PlacedFault) :
    Stricter (strict.report e) (lax.report e) := by
  have hle := h.minDistance_le
  by_cases hstrict : strict.surfaces = true
  · have hlax := h.surfaces hstrict
    simp only [Reporter.report, hstrict, hlax, if_true]
    exact ⟨hle, by simpa using hle, h.recorded.cons_cons _⟩
  · by_cases hlax : lax.surfaces = true
    · simp only [Reporter.report, hstrict, hlax, if_true]
      exact ⟨hle, by simpa using hle, h.recorded.cons _⟩
    · simp only [Reporter.report, hstrict, hlax]
      exact ⟨hle, by simpa using hle, h.recorded⟩

theorem hear (h : Stricter strict lax) (event : Event) :
    Stricter (strict.hear event) (lax.hear event) := by
  cases event with
  | consumed => exact h.tokenConsumed
  | fault e => exact h.report e
  | warning message position => exact h.warn message position

theorem hearAll (h : Stricter strict lax) (events : List Event) :
    Stricter (strict.hearAll events) (lax.hearAll events) := by
  induction events generalizing strict lax with
  | nil => exact h
  | cons event events ih => exact ih (h.hear event)

end Stricter

theorem stricter_new {d₁ d₂ : Nat} (h : d₁ ≤ d₂) : Stricter (new d₂) (new d₁) :=
  ⟨h, Nat.le_of_eq (Nat.add_comm d₁ d₂), .slnil⟩

theorem diagnostics_sublist {d₁ d₂ : Nat} (h : d₁ ≤ d₂) (events : List Event) :
    ((new d₂).hearAll events).diagnostics.Sublist ((new d₁).hearAll events).diagnostics :=
  ((stricter_new h).hearAll events).recorded.reverse

end Reporter

/-! ## What is recorded if nothing is dropped -/

/-- What the reporter records of an event if it lets every fault surface. -/
def Event.diagnostic? : Event → Option Diagnostic
  | .consumed => none
  | .fault e => some (.fault e)
  | .warning message position => some (.warning message position)

theorem Reporter.diagnostics_hearAll {r : Reporter} (h : r.minDistance = 0) (events : List Event) :
    (r.hearAll events).diagnostics = r.diagnostics ++ events.filterMap Event.diagnostic? := by
  induction events generalizing r with
  | nil => simp
  | cons event events ih =>
    have hstep : (r.hear event).minDistance = 0 ∧
        (r.hear event).diagnostics = r.diagnostics ++ event.diagnostic?.toList := by
      cases event <;> simp [hear, tokenConsumed, report, surfaces, warn, diagnostics,
        Event.diagnostic?, h]
    rw [hearAll_cons, ih hstep.1, hstep.2]
    cases hevent : event.diagnostic? <;> simp [hevent]

theorem Reporter.diagnostics_hearAll_new (events : List Event) :
    ((new 0).hearAll events).diagnostics = events.filterMap Event.diagnostic? :=
  diagnostics_hearAll rfl events

/-! ## What is detected -/

def Event.fault? : Event → Option PlacedFault
  | .fault e => some e
  | .consumed | .warning _ _ => none

def Diagnostic.fault? : Diagnostic → Option PlacedFault
  | .fault e => some e
  | .warning _ _ => none

/-- Every fault of the program that a window shows, recorded or not, in the order in which they are
noticed. -/
def Window.detected (w : Window) : List PlacedFault :=
  w.outcome.events.filterMap Event.fault?

theorem filterMap_diagnostic_fault (events : List Event) :
    (events.filterMap Event.diagnostic?).filterMap Diagnostic.fault? =
      events.filterMap Event.fault? := by
  rw [List.filterMap_filterMap]
  congr 1
  funext event
  cases event <;> rfl

theorem faultless_iff_filterMap_fault (events : List Event) :
    Faultless events ↔ events.filterMap Event.fault? = [] := by
  rw [List.filterMap_eq_nil_iff]
  refine forall_congr' fun event => imp_congr_right fun _ => ?_
  cases event <;> simp [Event.isFault, Event.fault?]

theorem Window.mem_detected {w : Window} {e : PlacedFault} :
    e ∈ w.detected ↔ .fault e ∈ w.outcome.events := by
  simp only [detected, List.mem_filterMap]
  constructor
  · rintro ⟨event, hmem, hevent⟩
    cases event <;> simp_all [Event.fault?]
  · intro hmem
    exact ⟨.fault e, hmem, rfl⟩

/-- What is detected once the tokens are there is a fault of grammar or a fault of meaning. -/
theorem Window.category_of_mem_detected {w : Window} {e : PlacedFault} (h : e ∈ w.detected) :
    e.fault.category = .syntaxFault ∨ e.fault.category = .semanticFault :=
  (Program.lower_recounts _ _).category (mem_detected.mp h)

theorem compileWindow_isSuccess_iff (w : Window) (minDistance : Nat) :
    (compileWindow w minDistance).isSuccess ↔ w.detected = [] := by
  simp only [compileWindow_eq, Compilation.isSuccess, decide_eq_true_iff]
  exact (Reporter.count_new_hearAll_eq_zero_iff minDistance _).trans
    (faultless_iff_filterMap_fault _)

/-- A compilation succeeds if and only if nothing of either kind is detected. -/
theorem compileWindow_isSuccess_iff_category (w : Window) (minDistance : Nat) :
    (compileWindow w minDistance).isSuccess ↔
      ¬∃ e ∈ w.detected,
        e.fault.category = .syntaxFault ∨ e.fault.category = .semanticFault := by
  rw [compileWindow_isSuccess_iff, List.eq_nil_iff_forall_not_mem]
  constructor
  · rintro hnone ⟨e, hmem, -⟩
    exact hnone e hmem
  · intro hnone e hmem
    exact hnone ⟨e, hmem, Window.category_of_mem_detected hmem⟩

/-- The least distance between faults decides which of the detected faults are listed, and nothing
else: a greater distance lists a part of what a smaller one lists, no distance lists them all, and
success means at any distance that there was none. -/
theorem distance_gates_only_diagnostics (tokens : List Token) (file : String) {d₁ d₂ : Nat}
    (h : d₁ ≤ d₂) :
    (compileTokens tokens file d₂).listing = (compileTokens tokens file d₁).listing ∧
    (compileTokens tokens file d₂).isSuccess = (compileTokens tokens file d₁).isSuccess ∧
    (compileTokens tokens file d₂).diagnostics.Sublist
      (compileTokens tokens file d₁).diagnostics ∧
    (compileTokens tokens file 0).diagnostics.filterMap Diagnostic.fault? =
      (Window.ofTokens tokens file).detected ∧
    ((compileTokens tokens file d₁).isSuccess ↔
      ¬∃ e ∈ (Window.ofTokens tokens file).detected,
        e.fault.category = .syntaxFault ∨ e.fault.category = .semanticFault) := by
  simp only [compileTokens]
  refine ⟨?_, ?_, ?_, ?_, compileWindow_isSuccess_iff_category _ _⟩
  · simp only [compileWindow_eq]
  · rw [Bool.eq_iff_iff, compileWindow_isSuccess_iff, compileWindow_isSuccess_iff]
  · simpa only [compileWindow_eq] using Reporter.diagnostics_sublist h _
  · simp only [compileWindow_eq, Reporter.diagnostics_hearAll_new]
    exact filterMap_diagnostic_fault _

/-- Four tokens are missing from a list without any, and the distance two lists one of them. -/
theorem distance_gates_only_diagnostics_nil :
    0 ≤ 2 ∧ (compileTokens [] "shell" 2).errorCount = 1 ∧
      (compileTokens [] "shell" 0).errorCount = 4 ∧
      (compileTokens [] "shell" 2).listing = (compileTokens [] "shell" 0).listing ∧
      (compileTokens [] "shell" 2).isSuccess = (compileTokens [] "shell" 0).isSuccess ∧
      (compileTokens [] "shell" 2).diagnostics.Sublist (compileTokens [] "shell" 0).diagnostics ∧
      (compileTokens [] "shell" 0).diagnostics.filterMap Diagnostic.fault? =
        (Window.ofTokens [] "shell").detected ∧
      ((compileTokens [] "shell" 0).isSuccess ↔
        ¬∃ e ∈ (Window.ofTokens [] "shell").detected,
          e.fault.category = .syntaxFault ∨ e.fault.category = .semanticFault) :=
  ⟨by decide, by decide +kernel, by decide +kernel,
    distance_gates_only_diagnostics [] "shell" (by decide)⟩

end SlotLang
