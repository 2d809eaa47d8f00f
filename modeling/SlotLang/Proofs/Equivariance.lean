import SlotLang.Proofs.Tracking

/-!
# Compiling commutes with renaming

Reading the renamed tokens of a program gives the renamed tree, and lowering it does the same as
before up to renaming.  What is left are the two ends: the header, which names what the program
declares, and the reporter, which sees the classes and the places of faults and never their wording.
-/

namespace SlotLang

variable (r : Renaming)

/-! ## Reports -/

/-- The severity of a diagnostic and where it stands, without its wording. -/
def Diagnostic.place (d : Diagnostic) : String × Position := (d.severity, d.position)

/-- Reporters that differ in the wording of what has surfaced at most. -/
structure Reporter.Alike (a b : Reporter) : Prop where
  minDistance : b.minDistance = a.minDistance
  distance : b.distance = a.distance
  recorded : b.recorded.map Diagnostic.place = a.recorded.map Diagnostic.place
  count : b.count = a.count

namespace Reporter.Alike

variable {a b : Reporter}

theorem refl (a : Reporter) : a.Alike a := ⟨rfl, rfl, rfl, rfl⟩

theorem report (h : a.Alike b) {e e' : PlacedFault}
    (hclass : e'.fault.category = e.fault.category) (hplace : e'.position = e.position) :
    (a.report e).Alike (b.report e') := by
  have hsurfaces : b.surfaces = a.surfaces := by
    simp [surfaces, h.minDistance, h.distance]
  have hfault : (Diagnostic.fault e').place = (Diagnostic.fault e).place := by
    simp [Diagnostic.place, Diagnostic.severity, Diagnostic.position, hclass, hplace]
  unfold Reporter.report
  rw [hsurfaces]
  split
  · exact ⟨h.minDistance, rfl, by simp [hfault, h.recorded], by simp [h.count]⟩
  · exact ⟨h.minDistance, rfl, h.recorded, h.count⟩

theorem hear (h : a.Alike b) {event event' : Event} (hevent : event.Alike event') :
    (a.hear event).Alike (b.hear event') := by
  cases hevent with
  | consumed => exact { h with distance := congrArg (· + 1) h.distance }
  | fault hclass hplace => exact h.report hclass hplace
  | warning message message' p =>
    have hrecorded : (Diagnostic.warning message' p :: b.recorded).map Diagnostic.place =
        (Diagnostic.warning message p :: a.recorded).map Diagnostic.place :=
      congrArg (List.cons _) h.recorded
    exact { h with recorded := hrecorded }

theorem hearAll {events events' : List Event} (hevents : List.Forall₂ Event.Alike events events')
    (h : a.Alike b) : (a.hearAll events).Alike (b.hearAll events') := by
  induction hevents generalizing a b with
  | nil => exact h
  | cons hevent _ ih => exact ih (h.hear hevent)

end Reporter.Alike

/-! ## Compiling -/

theorem Window.outcome_map (w : Window) :
    w.outcome.Renamed r id (w.map r.tokenMap).outcome := by
  have hstart : (Env.start w.ahead).Renamed r (Env.start (r.tokenMap.token w.ahead)) :=
    ⟨rfl, rfl, rfl, rfl, rfl, r.start_token w.ahead⟩
  have htree := Window.readProgram_map (m := r.tokenMap) .full w.budget w
  rw [outcome, outcome, ahead_map, budget_map, htree]
  exact (w.readProgram .full w.budget).1.lower_tracks r _ _ hstart

theorem compileWindow_map (w : Window) (minDistance : Nat) :
    let original := compileWindow w minDistance
    let renamed := compileWindow (w.map r.tokenMap) minDistance
    renamed.listing = original.listing.map r.instruction ∧
    renamed.errorCount = original.errorCount ∧
    renamed.diagnostics.map Diagnostic.place = original.diagnostics.map Diagnostic.place := by
  have houtcome := w.outcome_map r
  have hreport := (Reporter.Alike.refl (Reporter.new minDistance)).hearAll houtcome.events
  -- A program without any scope has the header of an empty one, renamed or not.
  have hglobal : ((r.scopes w.outcome.env.scopes).global?).getD .empty =
      r.scope (w.outcome.env.scopes.global?.getD .empty) := by
    rw [r.global?_scopes]
    cases w.outcome.env.scopes.global? <;> rfl
  simp only [compileWindow_eq]
  refine ⟨?_, hreport.count, ?_⟩
  · rw [houtcome.env.scopes, houtcome.code, hglobal, List.map_append, ← r.header_scope]
    rfl
  · rw [Reporter.diagnostics, Reporter.diagnostics, List.map_reverse, List.map_reverse,
      hreport.recorded]

theorem Window.map_ofTokens (tokens : List Token) (file : String) :
    (Window.ofTokens tokens file).map r.tokenMap =
      Window.ofTokens (tokens.map r.tokenMap.token) file := by
  have hfound : (tokens.map r.tokenMap.token).find? (fun t => t.kind = .eof) =
      (tokens.find? fun t => t.kind = .eof).map r.tokenMap.token := by
    simp [List.find?_map, Function.comp_def, r.tokenMap.kind_token]
  simp only [Window.map, Window.ofTokens, hfound]
  cases tokens.find? fun t => t.kind = .eof <;> rfl

/-- On names and numbers as they come from a text, renaming by words is renaming. -/
theorem Renaming.token_eq {t : Token}
    (hname : t.kind = .identifier → TokenKind.identifier.Spells t.value)
    (hnumber : t.kind = .number → ∀ c ∈ t.value.toList, c.isDigit = true) :
    r.token t = r.tokenMap.token t := by
  obtain ⟨kind, value, start, stop⟩ := t
  by_cases hidentifier : kind = .identifier
  · simp [Renaming.token, Renaming.tokenMap, hidentifier, r.text_of_spells (hname hidentifier)]
  · by_cases hdigits : kind = .number
    · simp [Renaming.token, Renaming.tokenMap, hdigits, r.text_digits (hnumber hdigits)]
    · simp [Renaming.token, Renaming.tokenMap, hidentifier, hdigits]

/-- Renaming the names among the tokens of a program renames the names in its listing.  Neither the
number of faults nor the severity or the place of any diagnostic changes. -/
theorem compiling_commutes_with_renaming (r : Renaming) (tokens : List Token) (file : String)
    (minDistance : Nat)
    (hnames : ∀ t ∈ tokens, t.kind = .identifier → TokenKind.identifier.Spells t.value)
    (hnumbers : ∀ t ∈ tokens, t.kind = .number → ∀ c ∈ t.value.toList, c.isDigit = true) :
    let original := compileTokens tokens file minDistance
    let renamed := compileTokens (tokens.map r.token) file minDistance
    renamed.listing = original.listing.map r.instruction ∧
    renamed.errorCount = original.errorCount ∧
    renamed.diagnostics.map Diagnostic.place = original.diagnostics.map Diagnostic.place := by
  have htokens : tokens.map r.token = tokens.map r.tokenMap.token :=
    List.map_congr_left fun t ht => r.token_eq (hnames t ht) (hnumbers t ht)
  have hwindow := compileWindow_map r (.ofTokens tokens file) minDistance
  rwa [Window.map_ofTokens, ← htokens] at hwindow

/-- An array and a procedure, and an assignment of the procedure to an element of the array. -/
def procedureAsValue : List Token :=
  let token (kind : TokenKind) (value : String) : Token := ⟨kind, value, .start "", .start ""⟩
  [token .kwProgram "program", token .identifier "p", token .openCurly "\x7b", token .kwInt "int",
    token .identifier "a", token .openBracket "[", token .number "2", token .closeBracket "]",
    token .semicolon ";", token .kwVoid "void", token .identifier "b", token .openParen "(",
    token .closeParen ")", token .openCurly "\x7b", token .identifier "a", token .openBracket "[",
    token .number "1", token .closeBracket "]", token .assignment ":=", token .identifier "b",
    token .semicolon ";", token .closeCurly "\x7d", token .closeCurly "\x7d"]

theorem compiling_commutes_with_renaming_procedureAsValue :
    ∃ ha : TokenKind.identifier.Spells "a", ∃ hb : TokenKind.identifier.Spells "b",
    let r := Renaming.exchange ha hb
    let original := compileTokens procedureAsValue "" 2
    let renamed := compileTokens (procedureAsValue.map r.token) "" 2
    renamed.listing = original.listing.map r.instruction ∧
    renamed.errorCount = original.errorCount ∧
    renamed.diagnostics.map Diagnostic.place = original.diagnostics.map Diagnostic.place := by
  have ha : TokenKind.identifier.Spells "a" := by decide
  have hb : TokenKind.identifier.Spells "b" := by decide
  have hnames : ∀ t ∈ procedureAsValue, t.kind = .identifier →
      TokenKind.identifier.Spells t.value := by decide
  have hdigits : procedureAsValue.all
      (fun t => t.kind ≠ .number || t.value.toList.all Char.isDigit) = true := by decide
  have hnumbers : ∀ t ∈ procedureAsValue, t.kind = .number →
      ∀ c ∈ t.value.toList, c.isDigit = true := by
    intro t ht hkind
    simpa [hkind] using List.all_eq_true.mp hdigits t ht
  exact ⟨ha, hb,
    compiling_commutes_with_renaming (.exchange ha hb) procedureAsValue "" 2 hnames hnumbers⟩

end SlotLang
