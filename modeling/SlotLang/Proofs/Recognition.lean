import SlotLang.Proofs.Gaps
import SlotLang.Proofs.Lookahead

/-!
# Recognising phrases

A window shows kinds of tokens up to the first end token.  A reader is sound for a phrase if the word
that it passes derives from the phrase, provided that the tree that it hands over has no gaps.  The
number of steps does not matter here, since a reader that runs out of steps leaves a gap or stops in
front of a token that its phrase need not take.

A reader is complete for a phrase if in front of a word that derives from the phrase it passes just
this word, and leaves no gaps.  Two things are needed for that.  The token behind the word must not
be one that the reader would still take, and the number of steps must be large enough for what the
window shows, which the budget of the whole text ensures.
-/

namespace SlotLang

/-- The kinds of a list of tokens up to the first end token, which is supplied if there is none. -/
def sentence (tokens : List Token) : List TokenKind :=
  (tokens.map (·.kind)).takeWhile (· ≠ .eof) ++ [.eof]

namespace Window

structure Shows (w : Window) (u : List TokenKind) : Prop where
  ending : w.ending.kind = .eof
  kinds : sentence w.rest = u

theorem shows_ofTokens (tokens : List Token) (file : String) :
    (Window.ofTokens tokens file).Shows (sentence tokens) :=
  ⟨kind_ending_ofTokens tokens file, rfl⟩

namespace Shows

variable {w : Window} {u r : List TokenKind} {k : TokenKind}

theorem exists_cons (h : w.Shows u) : ∃ r, u = w.kind :: r := by
  obtain ⟨hending, rfl⟩ := h
  obtain ⟨rest, ending⟩ := w
  cases rest with
  | nil => exact ⟨[], by simp_all [sentence, kind, ahead]⟩
  | cons t rest =>
    by_cases hkind : t.kind = .eof
    · exact ⟨[], by simp [sentence, kind, ahead, hkind]⟩
    · exact ⟨sentence rest, by simp [sentence, kind, ahead, hkind]⟩

theorem kind_eq (h : w.Shows (k :: r)) : w.kind = k := by
  obtain ⟨r', heq⟩ := h.exists_cons
  exact (List.cons.inj heq).1.symm

theorem advance (h : w.Shows (k :: r)) (hk : k ≠ .eof) : w.advance.Shows r := by
  have hkind := h.kind_eq
  obtain ⟨hending, hkinds⟩ := h
  obtain ⟨rest, ending⟩ := w
  constructor
  · exact hending
  · cases rest with
    | nil =>
      rw [kind, ahead, List.headD_nil] at hkind
      exact absurd (hkind.symm.trans hending) hk
    | cons t rest =>
      rw [kind, ahead, List.headD_cons] at hkind
      have hcons : sentence (t :: rest) = t.kind :: sentence rest := by
        simp [sentence, hkind, hk]
      rw [hcons] at hkinds
      exact (List.cons.inj hkinds).2

/-- The last kind that is shown is that of the end token, and no other one. -/
theorem ne_eof (h : w.Shows (k :: r)) (hr : r ≠ []) : k ≠ .eof := by
  intro heof
  have hkind := h.kind_eq
  obtain ⟨hending, hkinds⟩ := h
  obtain ⟨rest, ending⟩ := w
  cases rest with
  | nil =>
    have hnil : r = [] := by simpa [sentence] using (List.cons.inj hkinds).2.symm
    exact hr hnil
  | cons t rest =>
    rw [kind, ahead, List.headD_cons, heof] at hkind
    have hsingle : sentence (t :: rest) = [.eof] := by simp [sentence, hkind]
    rw [hsingle] at hkinds
    exact hr (List.cons.inj hkinds).2.symm

theorem eq_of_eof (h : w.Shows u) (hkind : w.kind = .eof) : u = [.eof] := by
  obtain ⟨r, rfl⟩ := h.exists_cons
  rw [hkind] at h ⊢
  by_cases hr : r = []
  · rw [hr]
  · exact absurd rfl (h.ne_eof hr)

theorem passes (h : w.Shows u) (hkind : w.kind = k) (hk : k ≠ .eof) :
    ∃ r, u = k :: r ∧ w.advance.Shows r := by
  obtain ⟨r, rfl⟩ := h.exists_cons
  rw [hkind] at h ⊢
  exact ⟨r, rfl, h.advance hk⟩

theorem next {ok : TokenKind → Bool} (h : w.Shows u) (hnext : Next ok u) : ok w.kind = true := by
  obtain ⟨v, rfl⟩ := h.exists_cons
  exact hnext

theorem length_pos (h : w.Shows u) : 0 < u.length := by
  obtain ⟨v, rfl⟩ := h.exists_cons
  exact Nat.succ_pos _

theorem expect_eq (h : w.Shows (k :: r)) : w.expect k = (.read w.ahead, w.advance) := by
  rw [expect, if_pos h.kind_eq]

theorem expect (h : w.Shows (k :: r)) (hk : k ≠ .eof) :
    (w.expect k).1.gaps = [] ∧ (w.expect k).2.Shows r := by
  rw [h.expect_eq]
  exact ⟨rfl, h.advance hk⟩

end Shows

/-! ## Sound readers -/

/-- What the reader passes without gaps derives from the phrase. -/
def Sound {α : Type} (gapsOf : α → List PlacedFault) (p : Phrase) (read : Window → α × Window) :
    Prop :=
  ∀ w u, w.Shows u → gapsOf (read w).1 = [] → ∃ r, (read w).2.Shows r ∧ Spans p u r

/-- The same for a reader that takes the token ahead for the one that opens the phrase. -/
def SoundAt {α : Type} (k : TokenKind) (gapsOf : α → List PlacedFault) (p : Phrase)
    (read : Window → α × Window) : Prop :=
  ∀ w u, w.kind = k → w.Shows u → gapsOf (read w).1 = [] → ∃ r, (read w).2.Shows r ∧ Spans p u r

variable {α : Type} {gapsOf : α → List PlacedFault} {p : Phrase} {item : Window → α × Window}

theorem kind_of_expect {w : Window} {k : TokenKind} (h : (w.expect k).1.gaps = []) :
    w.kind = k := by
  unfold expect at h
  split at h
  next hkind => exact hkind
  next => simp [Terminal.gaps] at h

theorem expect_passes {w : Window} {u : List TokenKind} {k : TokenKind} (h : w.Shows u)
    (hk : k ≠ .eof) (hgaps : (w.expect k).1.gaps = []) :
    ∃ r, u = k :: r ∧ (w.expect k).2.Shows r := by
  have hkind := kind_of_expect hgaps
  rw [expect, if_pos hkind]
  exact h.passes hkind hk

theorem sound_expect {k : TokenKind} (hk : k ≠ .eof) :
    Sound Terminal.gaps (.token k) fun w => w.expect k := by
  intro w u h hgaps
  obtain ⟨r, rfl, hr⟩ := expect_passes h hk hgaps
  exact ⟨r, hr, spans_token.mpr rfl⟩

theorem expect_read {w w' : Window} {u : List TokenKind} {k : TokenKind} {token : Token}
    (heq : w.expect k = (.read token, w')) (h : w.Shows u) (hk : k ≠ .eof) :
    ∃ r, u = k :: r ∧ w'.Shows r := by
  have hpasses := expect_passes h hk (k := k)
  rw [heq] at hpasses
  exact hpasses rfl

/-! ## Complete readers -/

/-- In front of at most `n` kinds, the reader passes a word of the phrase without gaps. -/
def Complete {α : Type} (gapsOf : α → List PlacedFault) (p : Phrase)
    (follow : List TokenKind → Prop) (n : Nat) (read : Window → α × Window) : Prop :=
  ∀ (w : Window) (u r : List TokenKind), u.length ≤ n → w.Shows u → Spans p u r → follow r →
    gapsOf (read w).1 = [] ∧ (read w).2.Shows r

/-- A phrase that ends with a token of its own may be followed by anything. -/
abbrev Anything : List TokenKind → Prop := fun _ => True

variable {follow : List TokenKind → Prop} {ok : TokenKind → Bool} {n steps : Nat}

theorem complete_zero : Complete gapsOf p follow 0 item := by
  -- There is always the end token.
  intro w u r hlen h
  exact absurd h.length_pos (by omega)

theorem Complete.mono {m : Nat} (h : Complete gapsOf p follow n item) (hle : m ≤ n) :
    Complete gapsOf p follow m item :=
  fun w u r hlen => h w u r (Nat.le_trans hlen hle)

theorem Complete.imp {follow' : List TokenKind → Prop} (h : Complete gapsOf p follow n item)
    (himp : ∀ r, follow' r → follow r) : Complete gapsOf p follow' n item :=
  fun w u r hlen hu hspans hr => h w u r hlen hu hspans (himp r hr)

/-! ## Lists with commas -/

theorem sound_moreItems (hitem : Sound gapsOf p item) (steps : Nat) :
    Sound (fun others => others.flatMap fun other => gapsOf other.2)
      (.repetition (.sequence [.token .comma, p])) (moreItems item steps) := by
  induction steps with
  | zero =>
    intro w u h _
    exact ⟨u, h, .stop _ u⟩
  | succ steps ih =>
    intro w u h hgaps
    unfold moreItems at hgaps ⊢
    split
    next hkind =>
      simp only [hkind, if_true, List.flatMap_cons, List.append_eq_nil_iff] at hgaps
      obtain ⟨v, rfl, hv⟩ := h.passes hkind (by decide)
      obtain ⟨m, hm, hfirst⟩ := hitem _ v hv hgaps.1
      obtain ⟨r, hr, hmore⟩ := ih _ m hm hgaps.2
      exact ⟨r, hr, .again (by simpa using hfirst) hmore⟩
    next => exact ⟨u, h, .stop _ u⟩

theorem sound_separated (hitem : Sound gapsOf p item) (steps : Nat) :
    Sound (Separated.gaps gapsOf) p.commaList (separated item steps) := by
  intro w u h hgaps
  have hgaps := List.append_eq_nil_iff.mp hgaps
  obtain ⟨m, hm, hfirst⟩ := hitem w u h hgaps.1
  obtain ⟨r, hr, hmore⟩ := sound_moreItems hitem steps _ m hm hgaps.2
  exact ⟨r, hr, spans_commaList.mpr ⟨m, hfirst, hmore⟩⟩

theorem sound_separatedUnlessClosed (hitem : Sound gapsOf p item) (steps : Nat) :
    Sound (Separated.gaps? gapsOf) p.commaList.optional (separatedUnlessClosed item steps) := by
  intro w u h hgaps
  unfold separatedUnlessClosed at hgaps ⊢
  split
  next => exact ⟨u, h, spans_optional.mpr (.inr rfl)⟩
  next hkind =>
    rw [if_neg hkind] at hgaps
    obtain ⟨r, hr, hitems⟩ := sound_separated hitem steps w u h hgaps
    exact ⟨r, hr, spans_optional.mpr (.inl hitems)⟩

theorem complete_moreItems (hitem : Complete gapsOf p (Next ok) n item)
    (hcomma : ok .comma = true) (hsteps : n ≤ steps) :
    Complete (fun others => others.flatMap fun other => gapsOf other.2)
      (.repetition (.sequence [.token .comma, p])) (Next fun k => ok k && k != .comma) n
      (moreItems item steps) := by
  induction n generalizing steps with
  | zero => exact complete_zero
  | succ n ih =>
    cases steps with
    | zero => contradiction
    | succ steps =>
    have ih := ih (hitem.mono (Nat.le_succ n)) (Nat.le_of_succ_le_succ hsteps)
    intro w u r hlen h hspans hr
    rcases spans_repetition.mp hspans with rfl | ⟨m, hfirst, hmore⟩
    · have hstop := h.next hr
      simp only [Bool.and_eq_true, bne_iff_ne] at hstop
      rw [moreItems, if_neg hstop.2]
      exact ⟨rfl, h⟩
    · simp only [spans_cons, spans_token, spans_nil] at hfirst
      obtain ⟨v, rfl, m, hfirst, rfl⟩ := hfirst
      simp only [moreItems, if_pos h.kind_eq, List.flatMap_cons, List.append_eq_nil_iff]
      have hm := next_moreItems hcomma hmore hr
      obtain ⟨g₁, h₁⟩ := hitem _ v m (by grind) (h.advance (by decide)) hfirst hm
      obtain ⟨g₂, h₂⟩ := ih _ m r (by grind) h₁ hmore hr
      exact ⟨⟨g₁, g₂⟩, h₂⟩

theorem complete_separated (hitem : Complete gapsOf p (Next ok) n item)
    (hcomma : ok .comma = true) (hsteps : n ≤ steps) :
    Complete (Separated.gaps gapsOf) p.commaList (Next fun k => ok k && k != .comma) n
      (separated item steps) := by
  intro w u r hlen h hspans hr
  obtain ⟨m, hfirst, hmore⟩ := spans_commaList.mp hspans
  have hm := next_moreItems hcomma hmore hr
  obtain ⟨g₁, h₁⟩ := hitem w u m hlen h hfirst hm
  obtain ⟨g₂, h₂⟩ := complete_moreItems hitem hcomma hsteps _ m r (by grind) h₁ hmore hr
  exact ⟨List.append_eq_nil_iff.mpr ⟨g₁, g₂⟩, h₂⟩

/-- A list that may be absent is told by the parenthesis behind it, which opens no item. -/
theorem complete_separatedUnlessClosed (hitem : Complete gapsOf p (Next ok) n item)
    (hopens : Opens (· != .closeParen) p) (hcomma : ok .comma = true)
    (hclosed : ok .closeParen = true) (hsteps : n ≤ steps) :
    Complete (Separated.gaps? gapsOf) p.commaList.optional (Next (· == .closeParen)) n
      (separatedUnlessClosed item steps) := by
  intro w u r hlen h hspans hr
  unfold separatedUnlessClosed
  rcases spans_optional.mp hspans with hitems | rfl
  · obtain ⟨m, hfirst, -⟩ := spans_commaList.mp hitems
    have hkind := h.next (hopens u m hfirst).1
    rw [if_neg (by simpa using hkind)]
    exact complete_separated hitem hcomma hsteps w u r hlen h hitems
      (hr.imp (by simp [hclosed]))
  · have hkind := h.next hr
    rw [if_pos (by simpa using hkind)]
    exact ⟨rfl, h⟩

end Window
end SlotLang
