import Mathlib.Data.List.TakeWhile
import SlotLang.Proofs.Scanning

/-!
# Printed tokens can be scanned

A list of tokens is printed with a separator in front of each token and another one behind the last.
A separator may be any mixture of blanks and comments that starts with a blank.  Scanning the printed
text gives the tokens back, with their kinds and their texts.

The blank in front is what matters: it ends every token.  Without it two tokens could be read as one,
and a stroke could be read as the start of the comment behind it.
-/

namespace SlotLang

/-! ## Separators -/

/-- A blank, a comment with the end of its line, or a comment in stars that has none of its ends
inside. -/
inductive SeparatorPiece : List Char → Prop where
  | blank {c : Char} : Text.isBlank c = true → SeparatorPiece [c]
  | lineComment {body : List Char} :
      '\n' ∉ body → SeparatorPiece ('/' :: '/' :: (body ++ ['\n']))
  | blockComment {body : List Char} :
      ¬['*', '/'] <:+: body → SeparatorPiece ('/' :: '*' :: (body ++ ['*', '/']))

structure IsSeparator (text : String) : Prop where
  startsBlank : ∃ c rest, text.toList = c :: rest ∧ Text.isBlank c = true
  pieces : ∃ pieces : List (List Char), text.toList = pieces.flatten ∧
    ∀ piece ∈ pieces, SeparatorPiece piece

/-- A token as it is printed, and the separator behind it. -/
structure PrintedToken where
  kind : TokenKind
  value : String
  separator : String

namespace PrintedToken

def text (t : PrintedToken) : String := t.value ++ t.separator

structure IsValid (t : PrintedToken) : Prop where
  spells : t.kind.Spells t.value
  separator : IsSeparator t.separator

end PrintedToken

/-- The text of printed tokens behind a first separator. -/
def printed (lead : String) (tokens : List PrintedToken) : String :=
  lead ++ String.join (tokens.map PrintedToken.text)

/-! ## A blank ends every lexeme -/

theorem Text.toNat_of_isBlank {c : Char} (h : isBlank c = true) : c.toNat ≤ 32 ∨ 132 < c.toNat := by
  simp only [isBlank, blankIntervals, List.any_cons, List.any_nil, Bool.or_false, Bool.or_eq_true,
    Bool.and_eq_true, decide_eq_true_eq] at h
  omega

/-- Texts at whose start the scanner skips nothing, whatever stands behind them. -/
def Solid (s : List Char) : Prop :=
  ∃ x t, s = x :: t ∧ Text.isBlank x = false ∧ (x = '/' → t = [])

namespace LexemeRule

theorem toNat_of_isWordPart {c : Char} (h : isWordPart c = true) : 48 ≤ c.toNat ∧ c.toNat ≤ 122 := by
  have hpart : (((decide ('A'.val ≤ c.val ∧ c.val ≤ 'Z'.val) ||
      (decide ('a'.val ≤ c.val) && decide (c.val ≤ 'z'.val))) ||
      (decide ('0'.val ≤ c.val) && decide (c.val ≤ '9'.val))) || decide (c = '_')) = true := h
  have hnat : c.toNat = c.val.toNat := rfl
  by_cases hc : c = '_'
  · subst hc
    decide
  · simp only [hc, decide_false, Bool.or_false, Bool.or_eq_true, Bool.and_eq_true,
      decide_eq_true_eq, UInt32.le_iff_toNat_le] at hpart
    rw [hnat]
    have hbounds : 'A'.val.toNat = 65 ∧ 'Z'.val.toNat = 90 ∧ 'a'.val.toNat = 97 ∧
      'z'.val.toNat = 122 ∧ '0'.val.toNat = 48 ∧ '9'.val.toNat = 57 := by decide
    omega

variable {c : Char} {s rest : List Char}

theorem not_isWordPart_of_isBlank (hc : Text.isBlank c = true) : isWordPart c = false := by
  rw [Bool.eq_false_iff]
  intro hpart
  have hnat := toNat_of_isWordPart hpart
  have hblank := Text.toNat_of_isBlank hc
  omega

theorem not_isDigit_of_isBlank (hc : Text.isBlank c = true) : c.isDigit = false := by
  rw [Bool.eq_false_iff]
  intro hdigit
  have hpart := not_isWordPart_of_isBlank hc
  rw [isWordPart_of_isDigit hdigit] at hpart
  contradiction

theorem isBlank_of_isWordPart (h : isWordPart c = true) : Text.isBlank c = false := by
  rw [Bool.eq_false_iff]
  intro hc
  rw [not_isWordPart_of_isBlank hc] at h
  contradiction

theorem solid_of_isWordPart (h : isWordPart c = true) : Solid (c :: s) := by
  refine ⟨c, s, rfl, isBlank_of_isWordPart h, ?_⟩
  rintro rfl
  exact absurd h (by decide)

theorem takeWhile_append_stop {inClass : Char → Bool} (hc : inClass c = false) :
    (s ++ c :: rest).takeWhile inClass = s.takeWhile inClass := by
  induction s with
  | nil => simp [hc]
  | cons x s ih => by_cases hx : inClass x <;> simp [hx, ih]

theorem dropWhile_append_stop {inClass : Char → Bool} (hc : inClass c = false) :
    (s ++ c :: rest).dropWhile inClass = s.dropWhile inClass ++ c :: rest := by
  induction s with
  | nil => simp [hc]
  | cons x s ih => by_cases hx : inClass x <;> simp [hx, ih]

/-- What a rule splits off stays the same if more text comes behind. -/
def ahead (rest : List Char) (parts : List Char × List Char) : List Char × List Char :=
  (parts.1, parts.2 ++ rest)

theorem splitRun_append_stop {inClass : Char → Bool} (hs : s ≠ []) (hc : inClass c = false) :
    splitRun inClass (s ++ c :: rest) = (splitRun inClass s).map (ahead (c :: rest)) := by
  obtain ⟨x, t, rfl⟩ := List.exists_cons_of_ne_nil hs
  by_cases hx : inClass x <;>
    simp [splitRun, hx, takeWhile_append_stop hc, dropWhile_append_stop hc, ahead]

theorem split_word_append_blank (hs : s ≠ []) (hc : Text.isBlank c = true) :
    word.split (s ++ c :: rest) = (word.split s).map (ahead (c :: rest)) := by
  have hpart := not_isWordPart_of_isBlank hc
  obtain ⟨x, t, rfl⟩ := List.exists_cons_of_ne_nil hs
  by_cases hx : isWordStart x <;>
    simp [split, hx, takeWhile_append_stop hpart, dropWhile_append_stop hpart, ahead]

theorem spelling_not_blank : ∀ kind ∈ TokenKind.all,
    (kind.spelling?.all fun text => text.toList.all fun c => !Text.isBlank c) = true := by
  decide +kernel

/-- A text without the character stands at the start of `s`, or not at all in front of `c`. -/
theorem isPrefixOf_append_stop {text : List Char} (hc : c ∉ text) :
    text.isPrefixOf? (s ++ c :: rest) = (text.isPrefixOf? s).map (· ++ c :: rest) := by
  induction text generalizing s with
  | nil => simp [List.isPrefixOf?]
  | cons d text ih =>
    obtain ⟨hd, htext⟩ := not_or.mp (mt List.mem_cons.mpr hc)
    cases s with
    | nil => simp [List.isPrefixOf?, Ne.symm hd]
    | cons x s =>
      by_cases hx : d = x
      · simp [List.isPrefixOf?, hx, ih htext]
      · simp [List.isPrefixOf?, hx]

theorem split_mark_append_blank (kind : TokenKind) (hc : Text.isBlank c = true) :
    (mark kind).split (s ++ c :: rest) = ((mark kind).split s).map (ahead (c :: rest)) := by
  cases hspelling : kind.spelling? with
  | none => simp [split, hspelling]
  | some text =>
    have hmem : c ∉ text.toList := by
      intro hmem
      have hall := spelling_not_blank kind (TokenKind.mem_all kind)
      simp only [hspelling, Option.all_some, List.all_eq_true] at hall
      simpa [hc] using hall c hmem
    simp only [split, hspelling, isPrefixOf_append_stop hmem, Option.map_map]
    rfl

theorem split_append_blank (rule : LexemeRule) (hs : Solid s) (hc : Text.isBlank c = true) :
    rule.split (s ++ c :: rest) = (rule.split s).map (ahead (c :: rest)) := by
  obtain ⟨x, t, rfl, hx, hstroke⟩ := hs
  have hstop : ∀ d, Text.isBlank d = false → c ≠ d := by
    rintro d hd rfl
    rw [hc] at hd
    contradiction
  cases rule with
  | word => exact split_word_append_blank (by simp) hc
  | number => exact splitRun_append_stop (List.cons_ne_nil x t) (not_isDigit_of_isBlank hc)
  | blanks => simp [split, splitRun, hx]
  | lineComment | blockComment =>
    by_cases hslash : x = '/'
    · cases hstroke hslash
      have hslash' := hstop '/' (by decide)
      have hstar := hstop '*' (by decide)
      simp [split, hslash, hslash', hstar]
    · simp [split, hslash]
  | mark kind => exact split_mark_append_blank kind hc

/-- A blank behind a solid text ends the lexemes in it. -/
theorem first_append_blank (hs : Solid s) (hc : Text.isBlank c = true) :
    first? (s ++ c :: rest) = (first? s).map fun found => (found.1, ahead (c :: rest) found.2) := by
  simp only [first?, List.map_findSome?]
  congr 1
  funext rule
  simp only [split_append_blank rule hs hc, Function.comp_apply, Option.map_map]
  rfl

/-! ## Tokens alone -/

theorem first_word (hstart : isWordStart c = true) (hrest : ∀ d ∈ rest, isWordPart d = true) :
    first? (c :: rest) = some (word, c :: rest, []) := by
  have htake := List.takeWhile_eq_self_iff.mpr hrest
  have hdrop := List.dropWhile_eq_nil_iff.mpr hrest
  simp [first?, ordered, split, hstart, htake, hdrop]

theorem first_number (hs : s ≠ []) (hdigits : ∀ d ∈ s, d.isDigit = true) :
    first? s = some (number, s, []) := by
  obtain ⟨x, t, rfl⟩ := List.exists_cons_of_ne_nil hs
  obtain ⟨hx, ht⟩ := List.forall_mem_cons.mp hdigits
  have hstart : isWordStart x = false := by
    rw [Bool.eq_false_iff]
    intro hstart
    rw [isDigit_of_isWordStart hstart] at hx
    contradiction
  have htake := List.takeWhile_eq_self_iff.mpr ht
  have hdrop := List.dropWhile_eq_nil_iff.mpr ht
  simp [first?, ordered, split, splitRun, hstart, hx, htake, hdrop]

/-- Each mark and each reserved word is taken whole by a rule that gives it its kind. -/
theorem first_spelling : ∀ kind ∈ TokenKind.all, (kind.spelling?.all fun text =>
    (first? text.toList).any fun found =>
      found.2 = (text.toList, []) ∧ found.1.kind? text.toList = some kind) = true := by
  decide +kernel

theorem spelling_solid : ∀ kind ∈ TokenKind.all, (kind.spelling?.all fun text =>
    text.toList.head?.any fun x =>
      !Text.isBlank x && (x ≠ '/' || text.toList.tail.isEmpty)) = true := by
  decide +kernel

end LexemeRule

namespace TokenKind

variable {kind : TokenKind} {text : String}

theorem Spells.cases (h : kind.Spells text) :
    (kind = number ∧ text.toList ≠ [] ∧ ∀ c ∈ text.toList, c.isDigit = true) ∨
    (kind = identifier ∧ IsWord text ∧ ∀ other : TokenKind, other.spelling? ≠ some text) ∨
    kind.spelling? = some text := by
  cases kind with
  | eof => exact h.elim
  | number => exact .inl ⟨rfl, h⟩
  | identifier => exact .inr (.inl ⟨rfl, h⟩)
  | _ => exact .inr (.inr h)

/-- A word that no kind has for itself is a name. -/
theorem ofWord_eq_identifier (h : ∀ other : TokenKind, other.spelling? ≠ some text) :
    ofWord text = identifier := by
  have hnone : reserved? text = none := List.find?_eq_none.mpr fun other _ => by simp [h other]
  simp [ofWord, hnone]

/-- The text of a token, taken alone, is one lexeme, and it becomes a token of its kind. -/
theorem Spells.first (h : kind.Spells text) :
    ∃ rule, LexemeRule.first? text.toList = some (rule, text.toList, []) ∧
      rule.kind? text.toList = some kind := by
  rcases h.cases with ⟨rfl, hne, hdigits⟩ | ⟨rfl, ⟨c, rest, htext, hstart, hrest⟩, hfree⟩ | hspelling
  · exact ⟨.number, LexemeRule.first_number hne hdigits, rfl⟩
  · refine ⟨.word, ?_, ?_⟩
    · rw [htext]
      exact LexemeRule.first_word hstart hrest
    · rw [LexemeRule.kind?, String.ofList_toList, ofWord_eq_identifier hfree]
  · have hfirst := LexemeRule.first_spelling kind (mem_all kind)
    simp only [hspelling, Option.all_some, Option.any_eq_true, decide_eq_true_eq] at hfirst
    obtain ⟨⟨rule, lexeme, rest⟩, hfirst, hparts, hkind⟩ := hfirst
    cases hparts
    exact ⟨rule, hfirst, hkind⟩

theorem Spells.solid (h : kind.Spells text) : Solid text.toList := by
  rcases h.cases with ⟨rfl, hne, hdigits⟩ | ⟨rfl, ⟨c, rest, htext, hstart, -⟩, -⟩ | hspelling
  · obtain ⟨c, rest, htext⟩ := List.exists_cons_of_ne_nil hne
    rw [htext] at hdigits ⊢
    exact LexemeRule.solid_of_isWordPart
      (LexemeRule.isWordPart_of_isDigit (hdigits c List.mem_cons_self))
  · rw [htext]
    exact LexemeRule.solid_of_isWordPart (LexemeRule.isWordPart_of_isWordStart hstart)
  · have hsolid := LexemeRule.spelling_solid kind (mem_all kind)
    cases htext : text.toList with
    | nil => simp [hspelling, htext] at hsolid
    | cons x t =>
      simp only [hspelling, htext, Option.all_some, List.head?_cons, Option.any_some, List.tail_cons,
        Bool.and_eq_true, Bool.or_eq_true, Bool.not_eq_true', decide_eq_true_eq,
        List.isEmpty_iff] at hsolid
      exact ⟨x, t, rfl, hsolid.1, fun hx => hsolid.2.resolve_left (· hx)⟩

/-- A blank behind the text of a token ends it. -/
theorem Spells.first_append_blank (h : kind.Spells text) {c : Char} (hc : Text.isBlank c = true)
    (rest : List Char) :
    ∃ rule, LexemeRule.first? (text.toList ++ c :: rest) = some (rule, text.toList, c :: rest) ∧
      rule.kind? text.toList = some kind := by
  obtain ⟨rule, hfirst, hkind⟩ := h.first
  refine ⟨rule, ?_, hkind⟩
  rw [LexemeRule.first_append_blank h.solid hc, hfirst]
  rfl

end TokenKind

/-! ## Comments -/

namespace LexemeRule

variable {body rest : List Char}

theorem first_lineComment (h : '\n' ∉ body) :
    first? ('/' :: '/' :: (body ++ '\n' :: rest)) =
      some (lineComment, '/' :: '/' :: body, '\n' :: rest) := by
  have hstop : (decide ('\n' ≠ '\n') : Bool) = false := rfl
  have hbody : ∀ c ∈ body, (decide (c ≠ '\n') : Bool) = true := by
    intro c hc
    exact decide_eq_true (ne_of_mem_of_not_mem hc h)
  have htake : (body ++ '\n' :: rest).takeWhile (· ≠ '\n') = body :=
    (takeWhile_append_stop hstop).trans (List.takeWhile_eq_self_iff.mpr hbody)
  have hdrop : (body ++ '\n' :: rest).dropWhile (· ≠ '\n') = '\n' :: rest := by
    rw [dropWhile_append_stop hstop, List.dropWhile_eq_nil_iff.mpr hbody, List.nil_append]
  calc first? ('/' :: '/' :: (body ++ '\n' :: rest))
      = some (lineComment, '/' :: '/' :: (body ++ '\n' :: rest).takeWhile (· ≠ '\n'),
          (body ++ '\n' :: rest).dropWhile (· ≠ '\n')) := rfl
    _ = some (lineComment, '/' :: '/' :: body, '\n' :: rest) := by rw [htake, hdrop]

theorem splitClosing_append (passed : List Char) (h : ¬['*', '/'] <:+: body) :
    splitClosing passed (body ++ '*' :: '/' :: rest) =
      some (passed.reverse ++ (body ++ ['*', '/']), rest) := by
  induction body generalizing passed with
  | nil => simp [splitClosing]
  | cons c body ih =>
    rw [List.infix_cons_iff, not_or] at h
    have hopen : ∀ more, c = '*' → body ++ '*' :: '/' :: rest = '/' :: more → False := by
      rintro more rfl hmore
      cases body with
      | nil => simp at hmore
      | cons d body =>
        obtain ⟨rfl, -⟩ := List.cons.inj hmore
        exact h.1 ⟨body, rfl⟩
    rw [List.cons_append, splitClosing.eq_2 _ _ _ hopen, ih _ h.2]
    simp

theorem first_blockComment (h : ¬['*', '/'] <:+: body) :
    first? ('/' :: '*' :: (body ++ '*' :: '/' :: rest)) =
      some (blockComment, '/' :: '*' :: (body ++ ['*', '/']), rest) := by
  have hword : word.split ('/' :: '*' :: (body ++ '*' :: '/' :: rest)) = none := rfl
  have hnumber : number.split ('/' :: '*' :: (body ++ '*' :: '/' :: rest)) = none := rfl
  have hblanks : blanks.split ('/' :: '*' :: (body ++ '*' :: '/' :: rest)) = none := rfl
  have hline : lineComment.split ('/' :: '*' :: (body ++ '*' :: '/' :: rest)) = none := rfl
  have hblock : blockComment.split ('/' :: '*' :: (body ++ '*' :: '/' :: rest)) =
      some ('/' :: '*' :: (body ++ ['*', '/']), rest) := splitClosing_append ['*', '/'] h
  simp [first?, ordered, hword, hnumber, hblanks, hline, hblock]

theorem first_blanks {c : Char} {s : List Char} (hc : Text.isBlank c = true) :
    first? (c :: s) = some (blanks, c :: s.takeWhile Text.isBlank, s.dropWhile Text.isBlank) := by
  have hstart : isWordStart c = false := by
    rw [Bool.eq_false_iff]
    intro hstart
    have hpart := not_isWordPart_of_isBlank hc
    rw [isWordPart_of_isWordStart hstart] at hpart
    contradiction
  simp [first?, ordered, split, splitRun, hstart, not_isDigit_of_isBlank hc, hc]

end LexemeRule

/-! ## Texts that can be cut -/

/-- The rules cut the text into lexemes, and those that are tokens have these kinds and texts. -/
inductive Lexed : List Char → List (TokenKind × String) → Prop where
  | nil : Lexed [] []
  | skip {rule : LexemeRule} {s lexeme rest : List Char} {found : List (TokenKind × String)} :
      LexemeRule.first? s = some (rule, lexeme, rest) → rule.kind? lexeme = none →
      Lexed rest found → Lexed s found
  | token {rule : LexemeRule} {kind : TokenKind} {s lexeme rest : List Char}
      {found : List (TokenKind × String)} :
      LexemeRule.first? s = some (rule, lexeme, rest) → rule.kind? lexeme = some kind →
      Lexed rest found → Lexed s ((kind, String.ofList lexeme) :: found)

/-- A lexeme costs one unit of fuel, and enough is left for the text behind it. -/
theorem scanFuel_lexeme {r : Reader} {fuel : Nat} {rule : LexemeRule} {s lexeme rest : List Char}
    (before : List Token) (hrest : r.rest = s) (hfuel : s.length ≤ fuel)
    (hfirst : LexemeRule.first? s = some (rule, lexeme, rest)) :
    ∃ less, rest.length ≤ less ∧
      (rule.kind? lexeme = none →
        scanFuel fuel r before = scanFuel less (r.moveTo lexeme rest) before) ∧
      ∀ kind, rule.kind? lexeme = some kind →
        scanFuel fuel r before = scanFuel less (r.moveTo lexeme rest)
          (⟨kind, String.ofList lexeme, r.position, (r.moveTo lexeme rest).position⟩ :: before) := by
  obtain ⟨happend, hne⟩ := LexemeRule.split_eq_some (LexemeRule.split_of_first hfirst)
  obtain ⟨text, position, offset⟩ := r
  obtain rfl : text = s := hrest
  cases text with
  | nil => exact absurd (List.append_eq_nil_iff.mp happend).1 hne
  | cons c s =>
    cases fuel with
    | zero => simp at hfuel
    | succ less =>
      refine ⟨less, length_le_of_lexeme happend hne hfuel, ?_, ?_⟩
      · intro hkind
        simp only [scanFuel, hfirst, hkind]
      · intro kind hkind
        simp only [scanFuel, hfirst, hkind]

theorem scanFuel_of_lexed {r : Reader} {s : List Char} {found : List (TokenKind × String)}
    {fuel : Nat} (before : List Token) (hrest : r.rest = s) (h : Lexed s found)
    (hfuel : s.length ≤ fuel) :
    ∃ tokens p, scanFuel fuel r before = .ok (before.reverse ++ tokens ++ [Token.ending p]) ∧
      tokens.map (fun t => (t.kind, t.value)) = found := by
  induction h generalizing r fuel before with
  | nil => exact ⟨[], r.position, by simp [scanFuel_of_nil hrest], rfl⟩
  | @skip rule s lexeme rest found hfirst hkind _ ih =>
    obtain ⟨fuel, hle, hstep, -⟩ := scanFuel_lexeme before hrest hfuel hfirst
    obtain ⟨tokens, p, hscan, htokens⟩ := ih (r := r.moveTo lexeme rest) before rfl hle
    refine ⟨tokens, p, ?_, htokens⟩
    rw [hstep hkind, hscan]
  | @token rule kind s lexeme rest found hfirst hkind _ ih =>
    obtain ⟨fuel, hle, -, hstep⟩ := scanFuel_lexeme before hrest hfuel hfirst
    obtain ⟨tokens, p, hscan, htokens⟩ := ih (r := r.moveTo lexeme rest)
      (⟨kind, String.ofList lexeme, r.position, (r.moveTo lexeme rest).position⟩ :: before) rfl hle
    refine ⟨⟨kind, String.ofList lexeme, r.position, (r.moveTo lexeme rest).position⟩ :: tokens, p,
      ?_, by simp [htokens]⟩
    rw [hstep kind hkind, hscan]
    simp

namespace Lexed

variable {s rest : List Char} {found : List (TokenKind × String)}

/-- Blanks at the start are skipped. -/
theorem of_dropWhile (h : Lexed (s.dropWhile Text.isBlank) found) : Lexed s found := by
  cases s with
  | nil => exact h
  | cons c s =>
    by_cases hc : Text.isBlank c
    · rw [List.dropWhile_cons_of_pos hc] at h
      exact .skip (LexemeRule.first_blanks hc) rfl h
    · rwa [List.dropWhile_cons_of_neg hc] at h

/-- One piece of a separator is skipped, with the blanks behind it. -/
theorem piece {piece : List Char} (hpiece : SeparatorPiece piece)
    (h : Lexed (rest.dropWhile Text.isBlank) found) :
    Lexed ((piece ++ rest).dropWhile Text.isBlank) found := by
  cases hpiece with
  | blank hc => simpa [hc] using h
  | @lineComment body hbody =>
    -- The end of the line is no part of the comment; it is a blank behind it.
    have hdrop : ('/' :: '/' :: (body ++ ['\n']) ++ rest).dropWhile Text.isBlank =
        '/' :: '/' :: (body ++ '\n' :: rest) := by
      rw [List.cons_append, List.dropWhile_cons_of_neg (by decide)]
      simp
    rw [hdrop]
    exact .skip (LexemeRule.first_lineComment hbody) rfl (of_dropWhile h)
  | @blockComment body hbody =>
    have hdrop : ('/' :: '*' :: (body ++ ['*', '/']) ++ rest).dropWhile Text.isBlank =
        '/' :: '*' :: (body ++ '*' :: '/' :: rest) := by
      rw [List.cons_append, List.dropWhile_cons_of_neg (by decide)]
      simp
    rw [hdrop]
    exact .skip (LexemeRule.first_blockComment hbody) rfl (of_dropWhile h)

theorem pieces {pieces : List (List Char)} (hpieces : ∀ piece ∈ pieces, SeparatorPiece piece)
    (h : Lexed (rest.dropWhile Text.isBlank) found) :
    Lexed ((pieces.flatten ++ rest).dropWhile Text.isBlank) found := by
  induction pieces with
  | nil => exact h
  | cons piece pieces ih =>
    obtain ⟨hpiece, hpieces⟩ := List.forall_mem_cons.mp hpieces
    rw [List.flatten_cons, List.append_assoc]
    exact Lexed.piece hpiece (ih hpieces)

theorem separator {text : String} (htext : IsSeparator text)
    (h : Lexed (rest.dropWhile Text.isBlank) found) : Lexed (text.toList ++ rest) found := by
  obtain ⟨pieces, hflatten, hpieces⟩ := htext.pieces
  rw [hflatten]
  exact of_dropWhile (Lexed.pieces hpieces h)

end Lexed

/-- Printed tokens are cut as they were printed. -/
theorem lexed_printed {items : List PrintedToken} (h : ∀ t ∈ items, t.IsValid) :
    Lexed ((String.join (items.map PrintedToken.text)).toList.dropWhile Text.isBlank)
      (items.map fun t => (t.kind, t.value)) := by
  induction items with
  | nil => exact .nil
  | cons t items ih =>
    obtain ⟨⟨hspells, hseparator⟩, hitems⟩ := List.forall_mem_cons.mp h
    have hlexed := Lexed.separator hseparator (ih hitems)
    rw [List.map_cons, String.join_cons, PrintedToken.text, String.append_assoc,
      String.toList_append, String.toList_append]
    obtain ⟨x, text, hvalue, hx, -⟩ := hspells.solid
    obtain ⟨c, rest, hblank, hc⟩ := hseparator.startsBlank
    have hdrop : ∀ behind, (t.value.toList ++ behind).dropWhile Text.isBlank =
        t.value.toList ++ behind := by
      intro behind
      rw [hvalue, List.cons_append, List.dropWhile_cons_of_neg (by simp [hx])]
    rw [hblank, List.cons_append] at hlexed ⊢
    rw [hdrop]
    obtain ⟨rule, hfirst, hkind⟩ := hspells.first_append_blank hc
      (rest ++ (String.join (items.map PrintedToken.text)).toList)
    have htoken := Lexed.token hfirst hkind hlexed
    rwa [String.ofList_toList] at htoken

/-- Scanning printed tokens gives them back, and the end of the text behind them. -/
theorem tokens_survive_printing {lead : String} {items : List PrintedToken} (file : String)
    (hlead : IsSeparator lead) (hitems : ∀ t ∈ items, t.IsValid) :
    ∃ tokens p, scan (printed lead items) file = .ok (tokens ++ [Token.ending p]) ∧
      tokens.map (fun t => (t.kind, t.value)) = items.map fun t => (t.kind, t.value) := by
  have hlexed := Lexed.separator hlead (lexed_printed hitems)
  rw [← String.toList_append] at hlexed
  obtain ⟨tokens, p, hscan, htokens⟩ := scanFuel_of_lexed
    (r := .new (printed lead items) file) [] rfl hlexed (Nat.le_refl _)
  exact ⟨tokens, p, hscan, htokens⟩

/-- A stroke in front of comments, one of which holds a stroke and a star, and a colon whose line ends
with what could have made it an assignment. -/
def strokeAndColon : List PrintedToken :=
  [⟨.identifier, "int_", " "⟩, ⟨.slash, "/", "\t/** / **/// *\n"⟩, ⟨.number, "007", "\n"⟩,
    ⟨.colon, ":", " //=\n"⟩, ⟨.kwInt, "int", " "⟩]

theorem isSeparator_blank {c : Char} (hc : Text.isBlank c = true) :
    IsSeparator (String.singleton c) :=
  ⟨⟨c, [], by simp, hc⟩, [[c]], by simp, by simpa using .blank hc⟩

theorem strokeAndColon_isValid : ∀ t ∈ strokeAndColon, t.IsValid := by
  have hcomments : IsSeparator "\t/** / **/// *\n" := by
    refine ⟨⟨'\t', _, rfl, by decide⟩, [['\t'], "/** / **/".toList, "// *\n".toList], by decide, ?_⟩
    simp only [List.forall_mem_cons]
    exact ⟨.blank (by decide), @SeparatorPiece.blockComment "* / *".toList (by decide),
      @SeparatorPiece.lineComment " *".toList (by decide), by simp⟩
  have hline : IsSeparator " //=\n" := by
    refine ⟨⟨' ', _, rfl, by decide⟩, [[' '], "//=\n".toList], by decide, ?_⟩
    simp only [List.forall_mem_cons]
    exact ⟨.blank (by decide), @SeparatorPiece.lineComment ['='] (by decide), by simp⟩
  simp only [strokeAndColon, List.forall_mem_cons]
  have hname : TokenKind.identifier.Spells "int_" := by
    refine ⟨by decide, fun kind => ?_⟩
    cases kind <;> decide
  exact ⟨⟨hname, isSeparator_blank (c := ' ') (by decide)⟩, ⟨rfl, hcomments⟩,
    ⟨⟨by decide, List.all_eq_true.mp (by decide)⟩, isSeparator_blank (c := '\n') (by decide)⟩,
    ⟨rfl, hline⟩, ⟨rfl, isSeparator_blank (c := ' ') (by decide)⟩, by simp⟩

theorem tokens_survive_printing_strokeAndColon :
    IsSeparator "\n" ∧ (∀ t ∈ strokeAndColon, t.IsValid) ∧
    printed "\n" strokeAndColon = "\nint_ /\t/** / **/// *\n007\n: //=\nint " ∧
    ∃ tokens p, scan (printed "\n" strokeAndColon) "" = .ok (tokens ++ [Token.ending p]) ∧
      tokens.map (fun t => (t.kind, t.value)) = [(.identifier, "int_"), (.slash, "/"),
        (.number, "007"), (.colon, ":"), (.kwInt, "int")] :=
  have hlead : IsSeparator "\n" := isSeparator_blank (c := '\n') (by decide)
  ⟨hlead, strokeAndColon_isValid, by decide,
    tokens_survive_printing "" hlead strokeAndColon_isValid⟩

end SlotLang
