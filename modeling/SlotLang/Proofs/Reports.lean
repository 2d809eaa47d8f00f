import Mathlib.Data.List.Basic
import Mathlib.Data.List.Induction
import SlotLang.Proofs.Gating

/-!
# Which reports surface

The reporter decides with a counter.  The rule behind it is about the events themselves: the first
report surfaces, and any other one if enough tokens were consumed since the report before it, whether
that one has surfaced or not.  What is recorded after any events is what the rule lists, in their order.
-/

namespace SlotLang

def Event.isConsumed : Event → Bool
  | .consumed => true
  | .fault _ | .warning _ _ => false

def Event.warning? : Event → Option (String × Position)
  | .warning message position => some (message, position)
  | .consumed | .fault _ => none

def Diagnostic.warning? : Diagnostic → Option (String × Position)
  | .warning message position => some (message, position)
  | .fault _ => none

/-! ## The rule -/

/-- The number of tokens consumed since the last report. -/
def tokensSinceReport (events : List Event) : Nat :=
  (events.reverse.takeWhile fun event => !event.isFault).countP Event.isConsumed

/-- A report that comes after these events surfaces. -/
def Due (minDistance : Nat) (events : List Event) : Prop :=
  events.countP Event.isFault = 0 ∨ minDistance ≤ tokensSinceReport events

instance (minDistance : Nat) (events : List Event) : Decidable (Due minDistance events) :=
  inferInstanceAs (Decidable (_ ∨ _))

variable {minDistance : Nat} {events : List Event}

@[simp] theorem tokensSinceReport_consumed :
    tokensSinceReport (events ++ [.consumed]) = tokensSinceReport events + 1 := by
  rw [tokensSinceReport, List.reverse_concat, List.takeWhile_cons_of_pos rfl,
    List.countP_cons_of_pos rfl, tokensSinceReport]

@[simp] theorem tokensSinceReport_warning (message : String) (position : Position) :
    tokensSinceReport (events ++ [.warning message position]) = tokensSinceReport events := by
  rw [tokensSinceReport, List.reverse_concat, List.takeWhile_cons_of_pos rfl,
    List.countP_cons_of_neg Bool.false_ne_true, tokensSinceReport]

@[simp] theorem tokensSinceReport_fault (e : PlacedFault) :
    tokensSinceReport (events ++ [.fault e]) = 0 := by
  rw [tokensSinceReport, List.reverse_concat, List.takeWhile_cons_of_neg Bool.false_ne_true,
    List.countP_nil]

/-! ## What the rule lists -/

/-- What is listed of the event at a position: a report if it is due, and a warning always. -/
def listedAt (minDistance : Nat) (events : List Event) (i : Nat) : Option Diagnostic :=
  match events[i]? with
  | some (.fault e) => if Due minDistance (events.take i) then some (.fault e) else none
  | some (.warning message position) => some (.warning message position)
  | some .consumed | none => none

/-- The event at a position is a report, and it surfaces. -/
def surfacesAt (minDistance : Nat) (events : List Event) (i : Nat) : Bool :=
  events[i]?.any Event.isFault && decide (Due minDistance (events.take i))

def listed (minDistance : Nat) (events : List Event) : List Diagnostic :=
  (List.range events.length).filterMap (listedAt minDistance events)

/-- The events before the last one are listed as if it was not there. -/
theorem listed_concat (event : Event) :
    listed minDistance (events ++ [event]) = listed minDistance events ++
      (listedAt minDistance (events ++ [event]) events.length).toList := by
  rw [listed, List.length_append, List.length_singleton, List.range_succ, List.filterMap_append,
    List.filterMap_cons, List.filterMap_nil, listed]
  congr 1
  refine List.filterMap_congr fun i hi => ?_
  have hlt := List.mem_range.mp hi
  rw [listedAt, listedAt, List.getElem?_append_left hlt,
    List.take_append_of_le_length (Nat.le_of_lt hlt)]

@[simp] theorem listed_consumed :
    listed minDistance (events ++ [.consumed]) = listed minDistance events := by
  simp [listed_concat, listedAt]

@[simp] theorem listed_warning (message : String) (position : Position) :
    listed minDistance (events ++ [.warning message position]) =
      listed minDistance events ++ [.warning message position] := by
  simp [listed_concat, listedAt]

theorem listed_fault (e : PlacedFault) :
    listed minDistance (events ++ [.fault e]) =
      listed minDistance events ++ if Due minDistance events then [.fault e] else [] := by
  by_cases h : Due minDistance events <;> simp [listed_concat, listedAt, h]

/-- The faults that are listed are the reports that surface. -/
theorem countP_listed :
    (listed minDistance events).countP (·.fault?.isSome) =
      (List.range events.length).countP (surfacesAt minDistance events) := by
  rw [listed, List.countP_filterMap]
  refine List.countP_congr fun i _ => ?_
  rw [listedAt, surfacesAt]
  rcases events[i]? with _ | event
  · simp
  · cases event with
    | consumed => simp [Event.isFault]
    | warning message position => simp [Event.isFault, Diagnostic.fault?]
    | fault e =>
      by_cases h : Due minDistance (events.take i) <;> simp [Event.isFault, Diagnostic.fault?, h]

theorem filterMap_warning_listed :
    (listed minDistance events).filterMap Diagnostic.warning? =
      events.filterMap Event.warning? := by
  induction events using List.reverseRecOn with
  | nil => rfl
  | append_singleton events event ih =>
    cases event with
    | consumed => simp [ih, Event.warning?]
    | warning message position => simp [ih, Event.warning?, Diagnostic.warning?]
    | fault e =>
      rw [listed_fault, List.filterMap_append, ih, List.filterMap_append]
      split <;> rfl

/-! ## What the reporter does -/

namespace Reporter

/-- The state of a reporter in terms of all events that it has heard. -/
structure Follows (minDistance : Nat) (events : List Event) (r : Reporter) : Prop where
  minDistance_eq : r.minDistance = minDistance
  /-- Before the first report the counter is ahead by the distance that is asked for. -/
  distance_eq : r.distance = tokensSinceReport events +
    if events.countP Event.isFault = 0 then minDistance else 0
  diagnostics_eq : r.diagnostics = listed minDistance events
  count_eq : r.count = r.diagnostics.countP (·.fault?.isSome)

theorem follows_new : Follows minDistance [] (new minDistance) :=
  ⟨rfl, (Nat.zero_add _).symm, rfl, rfl⟩

namespace Follows

variable {r : Reporter}

theorem surfaces_iff (h : Follows minDistance events r) :
    r.surfaces = true ↔ Due minDistance events := by
  rw [surfaces, decide_eq_true_iff, h.minDistance_eq, h.distance_eq, Due]
  split <;> omega

theorem tokenConsumed (h : Follows minDistance events r) :
    Follows minDistance (events ++ [.consumed]) r.tokenConsumed where
  minDistance_eq := h.minDistance_eq
  distance_eq := by
    simp only [Reporter.tokenConsumed, h.distance_eq, tokensSinceReport_consumed, List.countP_append,
      List.countP_singleton, Event.isFault]
    simp only [Bool.false_eq_true, if_false, Nat.add_zero]
    omega
  diagnostics_eq := h.diagnostics_eq.trans listed_consumed.symm
  count_eq := h.count_eq

theorem warn (h : Follows minDistance events r) (message : String) (position : Position) :
    Follows minDistance (events ++ [.warning message position]) (r.warn message position) where
  minDistance_eq := h.minDistance_eq
  distance_eq := by
    simp [Reporter.warn, h.distance_eq, Event.isFault]
  diagnostics_eq := by
    rw [listed_warning, ← h.diagnostics_eq]
    simp [Reporter.warn, diagnostics]
  count_eq := by
    simpa [Reporter.warn, diagnostics, Diagnostic.fault?] using h.count_eq

/-- The counter starts again from zero after every report. -/
theorem report (h : Follows minDistance events r) (e : PlacedFault) :
    Follows minDistance (events ++ [.fault e]) (r.report e) := by
  have hdiagnostics := h.diagnostics_eq
  have hcount := h.count_eq
  rw [diagnostics] at hdiagnostics hcount
  by_cases hdue : Due minDistance events
  · rw [Reporter.report, if_pos (h.surfaces_iff.mpr hdue)]
    refine ⟨h.minDistance_eq, ?_, ?_, ?_⟩
    · simp [Event.isFault]
    · simp [diagnostics, listed_fault, hdue, hdiagnostics]
    · simp [diagnostics, hcount, Diagnostic.fault?]
  · rw [Reporter.report, if_neg (mt h.surfaces_iff.mp hdue)]
    refine ⟨h.minDistance_eq, ?_, ?_, h.count_eq⟩
    · simp [Event.isFault]
    · simp [diagnostics, listed_fault, hdue, hdiagnostics]

theorem hear (h : Follows minDistance events r) (event : Event) :
    Follows minDistance (events ++ [event]) (r.hear event) := by
  cases event with
  | consumed => exact h.tokenConsumed
  | fault e => exact h.report e
  | warning message position => exact h.warn message position

theorem distance_le (h : Follows minDistance events r) :
    r.distance ≤ minDistance + events.countP Event.isConsumed := by
  have htokens : tokensSinceReport events ≤ events.countP Event.isConsumed := by
    rw [← List.countP_reverse]
    exact (List.takeWhile_sublist _).countP_le
  rw [h.distance_eq]
  split <;> omega

end Follows

theorem follows_hearAll (minDistance : Nat) (events : List Event) :
    Follows minDistance events ((new minDistance).hearAll events) := by
  induction events using List.reverseRecOn with
  | nil => exact follows_new
  | append_singleton events event ih =>
    rw [hearAll_append, hearAll_cons, hearAll_nil]
    exact ih.hear event

/-- A warning has an influence on nothing but the list of diagnostics. -/
theorem hearAll_filter_warning (r : Reporter) (events : List Event) :
    let without := r.hearAll (events.filter (·.warning?.isNone))
    without.minDistance = (r.hearAll events).minDistance ∧
      without.distance = (r.hearAll events).distance ∧
      without.count = (r.hearAll events).count ∧
      without.diagnostics.filterMap Diagnostic.fault? =
        (r.hearAll events).diagnostics.filterMap Diagnostic.fault? := by
  induction events using List.reverseRecOn with
  | nil => exact ⟨rfl, rfl, rfl, rfl⟩
  | append_singleton events event ih =>
    obtain ⟨hmin, hdistance, hcount, hfaults⟩ := ih
    rw [List.filter_append, hearAll_append, hearAll_append]
    generalize r.hearAll (events.filter _) = without at *
    generalize r.hearAll events = full at *
    cases event with
    | consumed =>
      refine ⟨hmin, ?_, hcount, hfaults⟩
      exact congrArg (· + 1) hdistance
    | warning message position =>
      refine ⟨hmin, hdistance, hcount, hfaults.trans ?_⟩
      simp [hear, warn, diagnostics, Diagnostic.fault?]
    | fault e =>
      have hsurfaces : without.surfaces = full.surfaces := by rw [surfaces, surfaces, hmin, hdistance]
      simp only [Event.warning?, Option.isNone_none, List.filter_cons_of_pos, List.filter_nil,
        hearAll_cons, hearAll_nil, hear, report, hsurfaces]
      cases full.surfaces with
      | false => exact ⟨hmin, rfl, hcount, hfaults⟩
      | true =>
        refine ⟨hmin, rfl, congrArg (· + 1) hcount, ?_⟩
        simpa [diagnostics] using hfaults

end Reporter

/-- After any events, the report with the number `k` surfaces exactly if it is the first one or the
least distance was consumed since the one before.  The diagnostics are the reports that surface and all
the warnings, in the order of the events, and the count is that of the former.  Warnings have no part in
that, and the counter never gets beyond the number of tokens and the least distance. -/
theorem reports_surface_by_distance (minDistance : Nat) (events : List Event) :
    let r := (Reporter.new minDistance).hearAll events
    let without := (Reporter.new minDistance).hearAll (events.filter (·.warning?.isNone))
    (∀ front e back k, events = front ++ Event.fault e :: back → front.countP Event.isFault + 1 = k →
      (((Reporter.new minDistance).hearAll front).surfaces = true ↔
        k = 1 ∨ minDistance ≤ tokensSinceReport front)) ∧
    r.diagnostics = listed minDistance events ∧
    r.count = (List.range events.length).countP (surfacesAt minDistance events) ∧
    r.count = r.diagnostics.countP (·.fault?.isSome) ∧
    r.diagnostics.filterMap Diagnostic.warning? = events.filterMap Event.warning? ∧
    without.surfaces = r.surfaces ∧ without.count = r.count ∧
    without.diagnostics.filterMap Diagnostic.fault? =
      r.diagnostics.filterMap Diagnostic.fault? ∧
    r.distance ≤ minDistance + events.countP Event.isConsumed := by
  have hfollows := Reporter.follows_hearAll minDistance events
  obtain ⟨hmin, hdistance, hcount, hfaults⟩ :=
    Reporter.hearAll_filter_warning (Reporter.new minDistance) events
  refine ⟨?_, hfollows.diagnostics_eq, ?_, hfollows.count_eq, ?_, ?_, hcount, hfaults,
    hfollows.distance_le⟩
  · rintro front e back k - rfl
    rw [(Reporter.follows_hearAll minDistance front).surfaces_iff, Due, Nat.add_eq_right]
  · rw [hfollows.count_eq, hfollows.diagnostics_eq, countP_listed]
  · rw [hfollows.diagnostics_eq, filterMap_warning_listed]
  · rw [Reporter.surfaces, Reporter.surfaces, hmin, hdistance]

/-- Four reports, one and then two tokens apart, and a warning. -/
def spacedEvents : List Event :=
  let e : PlacedFault := ⟨.integerExpected, ⟨1, 1, "t.txt"⟩⟩
  [.fault e, .consumed, .fault e, .consumed, .fault e, .consumed, .warning "unused" e.position,
    .consumed, .fault e]

/-- The third report does not surface, although two tokens were consumed since the last one that did:
the second report is only one token away. -/
theorem reports_surface_by_distance_spaced :
    spacedEvents = spacedEvents.take 4 ++ .fault ⟨.integerExpected, ⟨1, 1, "t.txt"⟩⟩ ::
      spacedEvents.drop 5 ∧
    (spacedEvents.take 4).countP Event.isFault + 1 = 3 ∧
    ((Reporter.new 2).hearAll (spacedEvents.take 4)).surfaces = false ∧
    ((Reporter.new 2).hearAll spacedEvents).diagnostics = listed 2 spacedEvents ∧
    ((Reporter.new 2).hearAll spacedEvents).count = 2 := by
  have hsplit : spacedEvents = spacedEvents.take 4 ++
      .fault ⟨.integerExpected, ⟨1, 1, "t.txt"⟩⟩ :: spacedEvents.drop 5 := by decide
  have hthird : (spacedEvents.take 4).countP Event.isFault + 1 = 3 := by decide
  obtain ⟨hgate, hdiagnostics, hcount, -⟩ := reports_surface_by_distance 2 spacedEvents
  refine ⟨hsplit, hthird, ?_, hdiagnostics, hcount.trans (by decide)⟩
  rw [← Bool.not_eq_true, hgate _ _ _ _ hsplit hthird]
  decide

end SlotLang
