import Mathlib.Data.Prod.Lex
import SlotLang.Proofs.Gating
import SlotLang.Proofs.JumpTargets
import SlotLang.Proofs.Termination

/-!
# Faults come in source order

A fault of grammar is placed at the token ahead, and a fault of meaning at the token before it.  So
of two faults with no token between them the second may be placed in front of the first.  A reporter
that wants one token between two faults never records such a pair, and one that wants two of them
records every place once.

The argument follows a run through the tokens of a text, whose places increase.  What it keeps is how
the faults recorded so far lie to the last token and to those ahead.
-/

namespace SlotLang

namespace Position

/-- Positions of one text are compared by line, and then by column. -/
def rank (p : Position) : Nat ×ₗ Nat := toLex (p.line, p.col)

theorem rank_lt_afterChar (p : Position) (c : Char) : p.rank < (p.afterChar c).rank := by
  rw [rank, rank, Prod.Lex.toLex_lt_toLex]
  unfold afterChar
  split <;> simp

theorem rank_le_afterText (p : Position) (text : List Char) : p.rank ≤ (p.afterText text).rank := by
  induction text generalizing p with
  | nil => exact le_rfl
  | cons c text ih => exact (p.rank_lt_afterChar c).le.trans (ih (p.afterChar c))

theorem rank_lt_afterText (p : Position) {text : List Char} (h : text ≠ []) :
    p.rank < (p.afterText text).rank := by
  cases text with
  | nil => contradiction
  | cons c text => exact (p.rank_lt_afterChar c).trans_le ((p.afterChar c).rank_le_afterText text)

theorem rank_counted_le (file : String) (before text : List Char) :
    (counted file before).rank ≤ (counted file (before ++ text)).rank := by
  rw [← afterText_counted]
  exact rank_le_afterText _ _

theorem rank_counted_lt (file : String) (before : List Char) {text : List Char} (h : text ≠ []) :
    (counted file before).rank < (counted file (before ++ text)).rank := by
  rw [← afterText_counted]
  exact rank_lt_afterText _ h

end Position

/-! ## Places of tokens -/

theorem TokenKind.Spells.ne_nil {kind : TokenKind} {text : String} (h : kind.Spells text) :
    text.toList ≠ [] := by
  cases kind with
  | eof => exact h.elim
  | number => exact h.1
  | identifier =>
    obtain ⟨c, rest, htext, -, -⟩ := h.1
    simp [htext]
  | _ => exact spelling_ne_nil h

/-- Each token starts behind the one before it. -/
def Ascending (tokens : List Token) : Prop :=
  tokens.Pairwise fun t t' => t.start.rank < t'.start.rank

namespace Cut

variable {file : String} {before text behind : List Char} {tokens : List Token}

theorem start_within (h : Cut file before text behind tokens) : ∀ t ∈ tokens,
    (Position.counted file before).rank ≤ t.start.rank ∧
      t.start.rank < (Position.counted file (before ++ text)).rank := by
  induction h with
  | last => simp
  | @token before gap text behind t tokens _ hspells hstart _ _ ih =>
    have hgap := Position.rank_counted_le file before gap
    have htoken := Position.rank_counted_lt file (before ++ gap) hspells.ne_nil
    have htext := Position.rank_counted_le file (before ++ gap ++ t.value.toList) text
    have hwhole : before ++ (gap ++ (t.value.toList ++ text)) =
        before ++ gap ++ t.value.toList ++ text := by simp
    intro t' ht'
    rw [hwhole]
    rcases List.mem_cons.mp ht' with rfl | ht'
    · rw [hstart]
      exact ⟨hgap, htoken.trans_le htext⟩
    · exact ⟨(hgap.trans htoken.le).trans (ih t' ht').1, (ih t' ht').2⟩

theorem ascending (h : Cut file before text behind tokens) : Ascending tokens := by
  induction h with
  | last => exact .nil
  | @token before gap text behind t tokens _ hspells hstart _ hrest ih =>
    refine .cons ?_ ih
    intro t' ht'
    rw [hstart]
    exact (Position.rank_counted_lt file (before ++ gap) hspells.ne_nil).trans_le
      (hrest.start_within t' ht').1

end Cut

theorem ascending_of_scan {source file : String} {tokens : List Token}
    (h : scan source file = .ok tokens) : Ascending tokens := by
  obtain ⟨found, hcut, rfl⟩ := cut_of_scan_ok h
  refine List.pairwise_append.mpr ⟨hcut.ascending, List.pairwise_singleton _ _, ?_⟩
  intro t ht ending hending
  rw [List.mem_singleton.mp hending]
  exact (hcut.start_within t ht).2

/-- Only the last token that is scanned is an end token, so a window shows all of them. -/
theorem shown_of_scan {source file : String} {tokens : List Token}
    (h : scan source file = .ok tokens) : (Window.ofTokens tokens file).shown = tokens := by
  obtain ⟨found, hcut, rfl⟩ := cut_of_scan_ok h
  have hkinds : ∀ t ∈ found, t.kind ≠ .eof := by
    intro t ht heof
    have hspells := hcut.spells t ht
    rw [heof] at hspells
    exact hspells
  have hending : (Token.ending (.counted file source.toList)).kind = .eof := rfl
  have hnone : found.find? (fun t => t.kind = .eof) = none := by simpa using hkinds
  rw [Window.shown, Window.ofTokens, List.takeWhile_append_of_pos (by simpa using hkinds)]
  simp [List.find?_append, hnone, hending]

/-! ## The reporter on its way -/

/-- How two places lie to each other if `distance` tokens were passed between them. -/
structure Position.Apart (distance : Nat) (p q : Position) : Prop where
  le : 1 ≤ distance → p.rank ≤ q.rank
  lt : 2 ≤ distance → p.rank < q.rank

theorem Position.Apart.mono {m n : Nat} {p q : Position} (h : Apart n p q) (hle : m ≤ n) :
    Apart m p q :=
  ⟨fun hm => h.le (hm.trans hle), fun hm => h.lt (hm.trans hle)⟩

namespace Reporter

/-- The faults among what is recorded, the latest first. -/
def faults (r : Reporter) : List PlacedFault := r.recorded.filterMap Diagnostic.fault?

/-- A reporter between the token at `last` and the tokens ahead. -/
structure Ordered (r : Reporter) (last : Position) (ahead : List Token) : Prop where
  last_le : ∀ t ∈ ahead, last.rank ≤ t.start.rank
  fault_le : ∀ e ∈ r.faults, ∀ t ∈ ahead, e.position.rank ≤ t.start.rank
  apart : ∀ e ∈ r.faults, e.position.Apart r.distance last
  /-- Before the first token has been consumed, it counts as the last one and is ahead as well. -/
  last_lt : ∀ e ∈ r.faults, 1 ≤ r.distance → ∀ t ∈ ahead, last.rank < t.start.rank
  sorted : r.faults.Pairwise fun later earlier =>
    earlier.position.Apart r.minDistance later.position

theorem minDistance_hearAll (r : Reporter) (events : List Event) :
    (r.hearAll events).minDistance = r.minDistance := by
  induction events generalizing r with
  | nil => rfl
  | cons event events ih =>
    rw [hearAll_cons, ih]
    cases event with
    | consumed => rfl
    | warning message position => rfl
    | fault e =>
      simp only [hear, report]
      split <;> rfl

theorem ordered_new (minDistance : Nat) {last : Position} {ahead : List Token}
    (h : ∀ t ∈ ahead, last.rank ≤ t.start.rank) : (new minDistance).Ordered last ahead where
  last_le := h
  fault_le _ he := by simp [faults, new] at he
  apart _ he := by simp [faults, new] at he
  last_lt _ he := by simp [faults, new] at he
  sorted := .nil

namespace Ordered

variable {r : Reporter} {last : Position} {ahead : List Token}

theorem tokenConsumed {t : Token} (h : r.Ordered last (t :: ahead)) (hsorted : Ascending (t :: ahead)) :
    r.tokenConsumed.Ordered t.start ahead := by
  have hbehind : ∀ t' ∈ ahead, t.start.rank < t'.start.rank := (List.pairwise_cons.mp hsorted).1
  refine ⟨fun t' ht' => (hbehind t' ht').le, ?_, ?_, fun e he hdistance => hbehind, h.sorted⟩
  · intro e he t' ht'
    exact h.fault_le e he t' (List.mem_cons_of_mem t ht')
  · intro e he
    refine ⟨fun _ => h.fault_le e he t List.mem_cons_self, ?_⟩
    -- Of two tokens passed since the fault, the first one was not in front of it.
    intro hdistance
    have hone : 1 ≤ r.distance := Nat.le_of_succ_le_succ hdistance
    exact ((h.apart e he).le hone).trans_lt (h.last_lt e he hone t List.mem_cons_self)

theorem report {e : PlacedFault} (h : r.Ordered last ahead)
    (hapart : ∀ e' ∈ r.faults, e'.position.Apart r.distance e.position)
    (hahead : ∀ t ∈ ahead, e.position.rank ≤ t.start.rank) : (r.report e).Ordered last ahead := by
  have hreset : ∀ p q : Position, p.Apart 0 q := fun p q => ⟨by simp, by simp⟩
  unfold Reporter.report
  split
  next hsurfaces =>
    have hle : r.minDistance ≤ r.distance := by simpa [surfaces] using hsurfaces
    refine ⟨h.last_le, ?_, fun _ _ => hreset _ _, by simp, ?_⟩
    · intro e' he'
      rcases List.mem_cons.mp he' with rfl | he'
      · exact hahead
      · exact h.fault_le e' he'
    · exact .cons (fun e' he' => (hapart e' he').mono hle) h.sorted
  next => exact ⟨h.last_le, h.fault_le, fun _ _ => hreset _ _, by simp, h.sorted⟩

/-- A run through the leaves of a tree keeps what is recorded in order. -/
theorem hearAll {last final : Token} {leaves : List Leaf} {events : List Event}
    {ahead behind : List Token} (h : r.Ordered last.start ahead)
    (htells : Tells last leaves events final) (halong : Along ahead leaves behind)
    (hsorted : Ascending ahead) : (r.hearAll events).Ordered final.start behind := by
  induction htells generalizing r ahead with
  | done last =>
    cases halong
    exact h
  | token _ ih =>
    cases halong with
    | token halong =>
      exact ih (h.tokenConsumed hsorted) halong (List.pairwise_cons.mp hsorted).2
  | @gap last next final fault leaves events _ _ ih =>
    cases halong with
    | @gap _ _ more _ _ halong =>
      have hnext : next ∈ next :: more := List.mem_cons_self
      refine ih (h.report (e := ⟨fault, next.start⟩) ?_ ?_) halong hsorted
      · intro e he
        refine ⟨fun _ => h.fault_le e he next hnext, ?_⟩
        intro hdistance
        exact ((h.apart e he).lt hdistance).trans_le (h.last_le next hnext)
      · intro t ht
        rcases List.mem_cons.mp ht with rfl | ht
        · exact le_rfl
        · exact ((List.pairwise_cons.mp hsorted).1 t ht).le
  | meaning _ _ ih => exact ih (h.report h.apart h.last_le) halong hsorted
  | warning _ ih =>
    exact ih ⟨h.last_le, h.fault_le, h.apart, h.last_lt, h.sorted⟩ halong hsorted

end Ordered
end Reporter

/-! ## Compiling -/

/-- What is recorded for a window whose tokens are in order. -/
theorem Window.ordered_outcome {w : Window} (h : w.Ends) (hsorted : Ascending w.shown)
    (minDistance : Nat) :
    ∃ last ahead, ((Reporter.new minDistance).hearAll w.outcome.events).Ordered last ahead := by
  have hself : Alike w.shown.length w w := ⟨h, h, rfl, Nat.le_refl _⟩
  have hbudget := enough_budget w
  obtain ⟨-, behind, hleads⟩ := readProgram_agree (g := .full) hbudget hbudget hself
  have htells := Program.lower_recounts (w.readProgram .full w.budget).1 (.start w.ahead)
  have hstart : ∀ t ∈ w.shown, w.ahead.start.rank ≤ t.start.rank := by
    obtain ⟨more, hmore⟩ := h.exists_cons
    rw [hmore] at hsorted ⊢
    intro t ht
    rcases List.mem_cons.mp ht with rfl | ht
    · exact le_rfl
    · exact ((List.pairwise_cons.mp hsorted).1 t ht).le
  exact ⟨_, behind, (Reporter.ordered_new minDistance hstart).hearAll htells hleads.along hsorted⟩

/-- For a text that can be scanned, the faults that are recorded come in the order of their places.
If two tokens are wanted between them, no place occurs twice. -/
theorem faults_in_source_order {source file : String} {tokens : List Token}
    (h : scan source file = .ok tokens) (minDistance : Nat) :
    ∃ c, compile source file minDistance = .ok c ∧
      (2 ≤ minDistance → (c.diagnostics.filterMap Diagnostic.fault?).Pairwise
        fun earlier later => earlier.position.rank < later.position.rank) ∧
      (1 ≤ minDistance → (c.diagnostics.filterMap Diagnostic.fault?).Pairwise
        fun earlier later => earlier.position.rank ≤ later.position.rank) := by
  have hsorted : Ascending (Window.ofTokens tokens file).shown := by
    rw [shown_of_scan h]
    exact ascending_of_scan h
  obtain ⟨last, ahead, hordered⟩ :=
    Window.ordered_outcome (Window.ends_ofTokens tokens file) hsorted minDistance
  have hapart : ((compileTokens tokens file minDistance).diagnostics.filterMap
      Diagnostic.fault?).Pairwise fun earlier later =>
        earlier.position.Apart minDistance later.position := by
    have hrecorded := hordered.sorted
    rw [Reporter.minDistance_hearAll] at hrecorded
    rw [compileTokens, compileWindow_eq, Reporter.diagnostics, List.filterMap_reverse,
      List.pairwise_reverse]
    exact hrecorded
  refine ⟨compileTokens tokens file minDistance, ?_, ?_, ?_⟩
  · rw [compile, h]
    rfl
  · intro hdistance
    exact hapart.imp fun h => h.lt hdistance
  · intro hdistance
    exact hapart.imp fun h => h.le hdistance

theorem faults_in_source_order_of_faultyText :
    (compile faultyText "shell" 2).toOption.map (·.errorCount) = some 2 ∧
    ∃ tokens, scan faultyText "shell" = .ok tokens ∧
      ∃ c, compile faultyText "shell" 2 = .ok c ∧
        ((c.diagnostics.filterMap Diagnostic.fault?).Pairwise
          fun earlier later => earlier.position.rank < later.position.rank) ∧
        (c.diagnostics.filterMap Diagnostic.fault?).Pairwise
          fun earlier later => earlier.position.rank ≤ later.position.rank := by
  have hok : (scan faultyText "shell").toOption.isSome = true := by decide +kernel
  refine ⟨by decide +kernel, ?_⟩
  cases hscan : scan faultyText "shell" with
  | error fault => simp [hscan, Except.toOption] at hok
  | ok tokens =>
    obtain ⟨c, hc, hstrict, hweak⟩ := faults_in_source_order hscan 2
    exact ⟨tokens, rfl, c, hc, hstrict (by decide), hweak (by decide)⟩

end SlotLang
