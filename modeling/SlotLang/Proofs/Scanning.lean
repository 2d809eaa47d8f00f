import Mathlib.Data.List.Basic
import SlotLang.Token.Scan

/-!
# Scanning loses nothing

The scanner cuts a text into gaps and tokens.  A gap is made of blanks and comments, the text of a
token is one that its kind can have, and the positions of a token are those that one finds by
counting the lines and columns of everything in front of it.  A scan that fails has cut the text in
front of a character in the same way, and no lexeme starts with this character.
-/

namespace SlotLang

/-! ## Positions by counting -/

namespace Position

/-- Each line feed passed adds a line, and each character behind the last of them adds a column. -/
def counted (file : String) (passed : List Char) : Position :=
  ⟨passed.count '\n' + 1, (passed.reverse.takeWhile (· ≠ '\n')).length + 1, file⟩

theorem counted_concat (file : String) (passed : List Char) (c : Char) :
    counted file (passed ++ [c]) = (counted file passed).afterChar c := by
  by_cases hc : c = '\n'
  · simp [counted, afterChar, hc]
  · simp [counted, afterChar, hc]

theorem afterText_counted (file : String) (passed text : List Char) :
    (counted file passed).afterText text = counted file (passed ++ text) := by
  induction text generalizing passed with
  | nil => simp
  | cons c text ih =>
    have happend : passed ++ c :: text = (passed ++ [c]) ++ text := by simp
    rw [happend, ← ih, counted_concat]
    rfl

end Position

/-! ## Texts of tokens -/

/-- A letter, followed by letters, digits and underscores. -/
def IsWord (text : String) : Prop :=
  ∃ c rest, text.toList = c :: rest ∧ LexemeRule.isWordStart c = true ∧
    ∀ d ∈ rest, LexemeRule.isWordPart d = true

instance (text : String) : Decidable (IsWord text) :=
  match htext : text.toList with
  | [] => .isFalse (by simp [IsWord, htext])
  | c :: rest =>
      decidable_of_iff (LexemeRule.isWordStart c = true ∧ rest.all LexemeRule.isWordPart = true)
        (by simp [IsWord, htext])

theorem IsWord.not_mem {text : String} {c : Char} (h : IsWord text)
    (hstart : LexemeRule.isWordStart c = false) (hpart : LexemeRule.isWordPart c = false) :
    c ∉ text.toList := by
  obtain ⟨d, rest, htext, hd, hrest⟩ := h
  rw [htext, List.mem_cons]
  rintro (rfl | hmem)
  · rw [hd] at hstart
    contradiction
  · rw [hrest c hmem] at hpart
    contradiction

theorem LexemeRule.isWordPart_of_isWordStart {c : Char} (h : isWordStart c = true) :
    isWordPart c = true := by
  have halpha : c.isAlpha = true := h
  simp [isWordPart, Char.isAlphanum, halpha]

theorem LexemeRule.isWordPart_of_isDigit {c : Char} (h : c.isDigit = true) :
    isWordPart c = true := by
  simp [isWordPart, Char.isAlphanum, h]

theorem LexemeRule.isDigit_of_isWordStart {c : Char} (h : isWordStart c = true) :
    c.isDigit = false := by
  have hletter : (decide ('A'.val ≤ c.val ∧ c.val ≤ 'Z'.val) ||
      (decide ('a'.val ≤ c.val) && decide (c.val ≤ 'z'.val))) = true := h
  have hdigit : c.isDigit = (decide ('0'.val ≤ c.val) && decide (c.val ≤ '9'.val)) := rfl
  grind

namespace TokenKind

/-- The texts that a token of the kind can have.  A name is a word that no kind has for itself. -/
def Spells : TokenKind → String → Prop
  | eof, _ => False
  | number, text => text.toList ≠ [] ∧ ∀ c ∈ text.toList, c.isDigit = true
  | identifier, text => IsWord text ∧ ∀ kind : TokenKind, kind.spelling? ≠ some text
  | kind, text => kind.spelling? = some text

theorem spells_of_spelling {kind : TokenKind} {text : String} (h : kind.spelling? = some text) :
    kind.Spells text := by
  cases kind with
  | eof | number | identifier => simp [spelling?] at h
  | _ => exact h

theorem mem_all (kind : TokenKind) : kind ∈ all := by
  cases kind <;> decide

theorem spelling_nonempty : ∀ kind ∈ all,
    (kind.spelling?.all fun text => !text.toList.isEmpty) = true := by
  decide

theorem spelling_ne_nil {kind : TokenKind} {text : String} (h : kind.spelling? = some text) :
    text.toList ≠ [] := by
  simpa [h] using spelling_nonempty kind (mem_all kind)

theorem reserved_or_mark : ∀ kind ∈ all, kind ∈ reservedWords ∨
    (kind.spelling?.all fun text => !text.toList.head?.any LexemeRule.isWordStart) = true := by
  decide

/-- A mark does not start with a letter, so only reserved words are spelled like words. -/
theorem mem_reservedWords_of_isWord {kind : TokenKind} {text : String}
    (h : kind.spelling? = some text) (hword : IsWord text) : kind ∈ reservedWords := by
  obtain ⟨c, rest, htext, hstart, -⟩ := hword
  rcases reserved_or_mark kind (mem_all kind) with hmem | hmark
  · exact hmem
  · simp [h, htext, hstart] at hmark

theorem spells_ofWord {text : String} (hword : IsWord text) : (ofWord text).Spells text := by
  unfold ofWord
  cases hreserved : reserved? text with
  | none =>
    refine ⟨hword, fun kind hkind => ?_⟩
    have hmem := mem_reservedWords_of_isWord hkind hword
    have hnone := List.find?_eq_none.mp hreserved kind hmem
    simp [hkind] at hnone
  | some kind =>
    have hspelling : kind.spelling? = some text := by simpa using List.find?_some hreserved
    exact spells_of_spelling hspelling

end TokenKind

/-! ## Gaps -/

/-- A piece of text that is skipped in front of `behind`: blanks, a comment that takes the rest of its
line, or a comment that ends with the first `*/` in it. -/
inductive Skipped : (piece behind : List Char) → Prop where
  | blanks {run behind : List Char} :
      run ≠ [] → (∀ c ∈ run, Text.isBlank c = true) → Skipped run behind
  | lineComment {body behind : List Char} :
      '\n' ∉ body → (∀ c ∈ behind.head?, c = '\n') → Skipped ('/' :: '/' :: body) behind
  | blockComment {body behind : List Char} :
      ¬['*', '/'] <:+: body → Skipped ('/' :: '*' :: (body ++ ['*', '/'])) behind

/-- Skipped pieces one behind the other. -/
inductive Gap : (gap behind : List Char) → Prop where
  | nil (behind : List Char) : Gap [] behind
  | cons {piece gap behind : List Char} :
      Skipped piece (gap ++ behind) → Gap gap behind → Gap (piece ++ gap) behind

/-- The text between `before` and `behind` is cut into gaps and the texts of the tokens: a gap comes in
front of each token and another one behind the last. -/
inductive Cut (file : String) : (before text behind : List Char) → List Token → Prop where
  | last {before gap behind : List Char} : Gap gap behind → Cut file before gap behind []
  | token {before gap text behind : List Char} {t : Token} {tokens : List Token} :
      Gap gap (t.value.toList ++ (text ++ behind)) →
      t.kind.Spells t.value →
      t.start = .counted file (before ++ gap) →
      t.stop = .counted file (before ++ gap ++ t.value.toList) →
      Cut file (before ++ gap ++ t.value.toList) text behind tokens →
      Cut file before (gap ++ (t.value.toList ++ text)) behind (t :: tokens)

/-- What is skipped first belongs to the first gap. -/
theorem Cut.skip {file : String} {before piece text behind : List Char} {tokens : List Token}
    (hpiece : Skipped piece (text ++ behind)) (h : Cut file (before ++ piece) text behind tokens) :
    Cut file before (piece ++ text) behind tokens := by
  cases h with
  | last hgap => exact .last (.cons hpiece hgap)
  | @token _ gap text _ t tokens hgap hspells hstart hstop hrest =>
    rw [List.append_assoc] at hpiece
    rw [List.append_assoc before] at hstart hstop hrest
    rw [← List.append_assoc]
    exact .token (.cons (by simpa using hpiece) hgap) hspells hstart hstop hrest

/-- A token at the start has an empty gap in front of it. -/
theorem Cut.cons {file : String} {before lexeme text behind : List Char} {kind : TokenKind}
    {tokens : List Token} (hspells : kind.Spells (String.ofList lexeme))
    (h : Cut file (before ++ lexeme) text behind tokens) :
    Cut file before (lexeme ++ text) behind (⟨kind, String.ofList lexeme, .counted file before,
      .counted file (before ++ lexeme)⟩ :: tokens) := by
  have hcut : Cut file before ([] ++ ((String.ofList lexeme).toList ++ text)) behind _ :=
    .token (t := ⟨kind, String.ofList lexeme, .counted file before, .counted file (before ++ lexeme)⟩)
      (.nil _) hspells (by simp) (by simp) (by simpa using h)
  simpa using hcut

theorem Cut.spells {file : String} {before text behind : List Char} {tokens : List Token}
    (h : Cut file before text behind tokens) : ∀ t ∈ tokens, t.kind.Spells t.value := by
  induction h with
  | last => simp
  | token _ hspells _ _ _ ih => exact List.forall_mem_cons.mpr ⟨hspells, ih⟩

/-! ## What the rules take -/

namespace LexemeRule

theorem splitRun_eq_some {inClass : Char → Bool} {s lexeme rest : List Char}
    (h : splitRun inClass s = some (lexeme, rest)) :
    lexeme ++ rest = s ∧ lexeme ≠ [] ∧ ∀ c ∈ lexeme, inClass c = true := by
  unfold splitRun at h
  split at h
  next c s =>
    split at h
    next hc =>
      cases h
      refine ⟨by simp, by simp, ?_⟩
      intro d hd
      rcases List.mem_cons.mp hd with rfl | hd
      · exact hc
      · exact List.all_eq_true.mp List.all_takeWhile d hd
    next => simp at h
  next => simp at h

theorem splitClosing_eq_some {passed s lexeme rest : List Char}
    (h : splitClosing passed s = some (lexeme, rest)) :
    ∃ body, s = body ++ '*' :: '/' :: rest ∧ lexeme = passed.reverse ++ (body ++ ['*', '/']) ∧
      ¬['*', '/'] <:+: body := by
  fun_induction splitClosing passed s with
  | case1 passed rest' =>
    cases h
    exact ⟨[], rfl, by simp, by simp⟩
  | case2 passed c s hopen ih =>
    obtain ⟨body, rfl, rfl, hbody⟩ := ih h
    refine ⟨c :: body, rfl, by simp, ?_⟩
    rw [List.infix_cons_iff]
    rintro (hstart | hlater)
    · -- The comment would have been closed here.
      obtain ⟨more, hmore⟩ := hstart
      obtain ⟨rfl, hbody⟩ := List.cons.inj hmore
      exact hopen (more ++ '*' :: '/' :: rest) rfl (by simp [← hbody])
    · exact hbody hlater
  | case3 passed => simp at h

theorem split_word_eq_some {s lexeme rest : List Char}
    (h : word.split s = some (lexeme, rest)) :
    lexeme ++ rest = s ∧ lexeme ≠ [] ∧ IsWord (String.ofList lexeme) := by
  simp only [split] at h
  split at h
  next c s =>
    split at h
    next hstart =>
      cases h
      refine ⟨by simp, by simp, c, s.takeWhile isWordPart, by simp, hstart, ?_⟩
      intro d hd
      exact List.all_eq_true.mp List.all_takeWhile d hd
    next => simp at h
  next => simp at h

theorem split_lineComment_eq_some {s lexeme rest : List Char}
    (h : lineComment.split s = some (lexeme, rest)) :
    lexeme ++ rest = s ∧ lexeme ≠ [] ∧ Skipped lexeme rest := by
  simp only [split] at h
  split at h
  next s =>
    cases h
    refine ⟨by simp, by simp, .lineComment ?_ ?_⟩
    · intro hmem
      simpa using List.all_eq_true.mp List.all_takeWhile '\n' hmem
    · intro c hc
      have hstop := List.head?_dropWhile_not (· ≠ '\n') s
      rw [Option.mem_def.mp hc] at hstop
      simpa using hstop
  next => simp at h

theorem split_blockComment_eq_some {s lexeme rest : List Char}
    (h : blockComment.split s = some (lexeme, rest)) :
    lexeme ++ rest = s ∧ lexeme ≠ [] ∧ Skipped lexeme rest := by
  simp only [split] at h
  split at h
  next s =>
    obtain ⟨body, rfl, rfl, hbody⟩ := splitClosing_eq_some h
    exact ⟨by simp, by simp, .blockComment hbody⟩
  next => simp at h

theorem split_mark_eq_some {kind : TokenKind} {s lexeme rest : List Char}
    (h : (mark kind).split s = some (lexeme, rest)) :
    lexeme ++ rest = s ∧ lexeme ≠ [] ∧ kind.spelling? = some (String.ofList lexeme) := by
  simp only [split] at h
  split at h
  next spelling hspelling =>
    obtain ⟨more, hmore, heq⟩ := Option.map_eq_some_iff.mp h
    cases heq
    have hne := TokenKind.spelling_ne_nil hspelling
    exact ⟨List.isPrefixOf?_eq_some_iff_append_eq.mp hmore, hne, by simpa using hspelling⟩
  next => simp at h

/-- A rule takes a lexeme that is not empty from the start of the text. -/
theorem split_eq_some {rule : LexemeRule} {s lexeme rest : List Char}
    (h : rule.split s = some (lexeme, rest)) : lexeme ++ rest = s ∧ lexeme ≠ [] := by
  cases rule with
  | word =>
    obtain ⟨happend, hne, -⟩ := split_word_eq_some h
    exact ⟨happend, hne⟩
  | number | blanks =>
    obtain ⟨happend, hne, -⟩ := splitRun_eq_some h
    exact ⟨happend, hne⟩
  | lineComment =>
    obtain ⟨happend, hne, -⟩ := split_lineComment_eq_some h
    exact ⟨happend, hne⟩
  | blockComment =>
    obtain ⟨happend, hne, -⟩ := split_blockComment_eq_some h
    exact ⟨happend, hne⟩
  | mark kind =>
    obtain ⟨happend, hne, -⟩ := split_mark_eq_some h
    exact ⟨happend, hne⟩

theorem skipped_of_split {rule : LexemeRule} {s lexeme rest : List Char}
    (h : rule.split s = some (lexeme, rest)) (hkind : rule.kind? lexeme = none) :
    Skipped lexeme rest := by
  cases rule with
  | blanks =>
    obtain ⟨-, hne, hblank⟩ := splitRun_eq_some h
    exact .blanks hne hblank
  | lineComment => exact (split_lineComment_eq_some h).2.2
  | blockComment => exact (split_blockComment_eq_some h).2.2
  | word | number | mark kind => simp [kind?] at hkind

theorem spells_of_split {rule : LexemeRule} {s lexeme rest : List Char} {kind : TokenKind}
    (h : rule.split s = some (lexeme, rest)) (hkind : rule.kind? lexeme = some kind) :
    kind.Spells (String.ofList lexeme) := by
  cases rule with
  | word =>
    cases hkind
    exact TokenKind.spells_ofWord (split_word_eq_some h).2.2
  | number =>
    cases hkind
    obtain ⟨-, hne, hdigits⟩ := splitRun_eq_some h
    exact ⟨by simpa using hne, by simpa using hdigits⟩
  | mark other =>
    cases hkind
    exact TokenKind.spells_of_spelling (split_mark_eq_some h).2.2
  | blanks | lineComment | blockComment => simp [kind?] at hkind

theorem split_of_first {s lexeme rest : List Char} {rule : LexemeRule}
    (h : first? s = some (rule, lexeme, rest)) : rule.split s = some (lexeme, rest) := by
  obtain ⟨other, -, hparts⟩ := List.exists_of_findSome?_eq_some h
  obtain ⟨parts, hsplit, heq⟩ := Option.map_eq_some_iff.mp hparts
  cases heq
  exact hsplit

theorem split_of_first_none {s : List Char} (h : first? s = none) :
    ∀ rule ∈ ordered, rule.split s = none := by
  intro rule hmem
  simpa using List.findSome?_eq_none_iff.mp h rule hmem

end LexemeRule

/-! ## One step of a scan -/

theorem scanFuel_of_nil {r : Reader} (h : r.rest = []) (fuel : Nat) (found : List Token) :
    scanFuel fuel r found = .ok (found.reverse ++ [Token.ending r.position]) := by
  obtain ⟨rest, position, offset⟩ := r
  cases h
  cases fuel <;> simp [scanFuel]

/-- A step refuses the next character, skips a piece of a gap, or takes a token. -/
theorem scanFuel_step {r : Reader} {c : Char} {s : List Char} (hrest : r.rest = c :: s) :
    ((∀ rule ∈ LexemeRule.ordered, rule.split r.rest = none) ∧ ∀ fuel found,
      scanFuel (fuel + 1) r found = .error ⟨.unrecognised (String.singleton c), r.position⟩) ∨
    ∃ lexeme rest, lexeme ++ rest = r.rest ∧ lexeme ≠ [] ∧
      ((Skipped lexeme rest ∧ ∀ fuel found,
        scanFuel (fuel + 1) r found = scanFuel fuel (r.moveTo lexeme rest) found) ∨
      ∃ kind : TokenKind, kind.Spells (String.ofList lexeme) ∧ ∀ fuel found,
        scanFuel (fuel + 1) r found = scanFuel fuel (r.moveTo lexeme rest)
          (⟨kind, String.ofList lexeme, r.position, r.position.afterText lexeme⟩ :: found)) := by
  obtain ⟨_, position, offset⟩ := r
  cases hrest
  cases hfirst : LexemeRule.first? (c :: s) with
  | none =>
    exact .inl ⟨LexemeRule.split_of_first_none hfirst, fun fuel found => by simp [scanFuel, hfirst]⟩
  | some parts =>
    obtain ⟨rule, lexeme, rest⟩ := parts
    have hsplit := LexemeRule.split_of_first hfirst
    obtain ⟨happend, hne⟩ := LexemeRule.split_eq_some hsplit
    refine .inr ⟨lexeme, rest, happend, hne, ?_⟩
    cases hkind : rule.kind? lexeme with
    | none =>
      exact .inl ⟨LexemeRule.skipped_of_split hsplit hkind,
        fun fuel found => by simp [scanFuel, hfirst, hkind]⟩
    | some kind =>
      exact .inr ⟨kind, LexemeRule.spells_of_split hsplit hkind,
        fun fuel found => by simp [scanFuel, hfirst, hkind, Reader.moveTo]⟩

/-- What is left behind a lexeme needs less fuel. -/
theorem length_le_of_lexeme {lexeme rest s : List Char} {fuel : Nat} (happend : lexeme ++ rest = s)
    (hne : lexeme ≠ []) (hfuel : s.length ≤ fuel + 1) : rest.length ≤ fuel := by
  have hpos := List.length_pos_iff.mpr hne
  rw [← happend, List.length_append] at hfuel
  omega

/-- Fuel for as many lexemes as there are characters is enough. -/
theorem scanFuel_congr {fuel₁ fuel₂ : Nat} {r : Reader} {found : List Token}
    (h₁ : r.rest.length ≤ fuel₁) (h₂ : r.rest.length ≤ fuel₂) :
    scanFuel fuel₁ r found = scanFuel fuel₂ r found := by
  induction fuel₁ generalizing fuel₂ r found with
  | zero =>
    have hrest : r.rest = [] := List.length_eq_zero_iff.mp (Nat.le_zero.mp h₁)
    rw [scanFuel_of_nil hrest, scanFuel_of_nil hrest]
  | succ fuel₁ ih =>
    cases hrest : r.rest with
    | nil => rw [scanFuel_of_nil hrest, scanFuel_of_nil hrest]
    | cons c s =>
      have hpos : fuel₂ ≠ 0 := by
        rintro rfl
        simp [hrest] at h₂
      obtain ⟨fuel₂, rfl⟩ := Nat.exists_eq_add_one_of_ne_zero hpos
      rcases scanFuel_step hrest with ⟨-, hstep⟩ | ⟨lexeme, rest, happend, hne, hstep⟩
      · rw [hstep, hstep]
      · have hle₁ := length_le_of_lexeme happend hne h₁
        have hle₂ := length_le_of_lexeme happend hne h₂
        rcases hstep with ⟨-, hstep⟩ | ⟨kind, -, hstep⟩
        · rw [hstep, hstep]
          exact ih hle₁ hle₂
        · rw [hstep, hstep]
          exact ih hle₁ hle₂

/-! ## What a scan gives -/

/-- The result of scanning `text`, which stands behind `before`, where `found` are the tokens from
there, the latest first. -/
def Explains (file : String) (before text : List Char) (found : List Token) :
    Except PlacedFault (List Token) → Prop
  | .ok tokens => ∃ more, Cut file before text [] more ∧
      tokens = found.reverse ++ (more ++ [Token.ending (.counted file (before ++ text))])
  | .error e => ∃ passed c rest more, text = passed ++ c :: rest ∧
      Cut file before passed (c :: rest) more ∧
      (∀ rule ∈ LexemeRule.ordered, rule.split (c :: rest) = none) ∧
      e = ⟨.unrecognised (String.singleton c), .counted file (before ++ passed)⟩

namespace Explains

variable {file : String} {before lexeme rest : List Char} {found : List Token}
  {result : Except PlacedFault (List Token)}

theorem skip (hskipped : Skipped lexeme rest) (h : Explains file (before ++ lexeme) rest found result) :
    Explains file before (lexeme ++ rest) found result := by
  cases result with
  | ok tokens =>
    obtain ⟨more, hcut, htokens⟩ := h
    exact ⟨more, hcut.skip (by simpa using hskipped), by rw [htokens, List.append_assoc]⟩
  | error e =>
    obtain ⟨passed, c, behind, more, rfl, hcut, hnone, rfl⟩ := h
    exact ⟨lexeme ++ passed, c, behind, more, by simp, hcut.skip hskipped, hnone, by simp⟩

theorem token {kind : TokenKind} (hspells : kind.Spells (String.ofList lexeme))
    (h : Explains file (before ++ lexeme) rest (⟨kind, String.ofList lexeme, .counted file before,
      .counted file (before ++ lexeme)⟩ :: found) result) :
    Explains file before (lexeme ++ rest) found result := by
  cases result with
  | ok tokens =>
    obtain ⟨more, hcut, htokens⟩ := h
    exact ⟨_, hcut.cons hspells, by simp [htokens]⟩
  | error e =>
    obtain ⟨passed, c, behind, more, rfl, hcut, hnone, rfl⟩ := h
    exact ⟨lexeme ++ passed, c, behind, _, by simp, hcut.cons hspells, hnone, by simp⟩

end Explains

theorem scanFuel_explains {file : String} {fuel : Nat} {r : Reader} {before : List Char}
    {found : List Token} (hfuel : r.rest.length ≤ fuel)
    (hposition : r.position = .counted file before) :
    Explains file before r.rest found (scanFuel fuel r found) := by
  induction fuel generalizing r before found with
  | zero =>
    have hrest : r.rest = [] := List.length_eq_zero_iff.mp (Nat.le_zero.mp hfuel)
    rw [scanFuel_of_nil hrest, hrest, hposition]
    exact ⟨[], .last (.nil _), by simp⟩
  | succ fuel ih =>
    cases hrest : r.rest with
    | nil =>
      rw [scanFuel_of_nil hrest, hposition]
      exact ⟨[], .last (.nil _), by simp⟩
    | cons c s =>
      rw [← hrest]
      rcases scanFuel_step hrest with ⟨hnone, hstep⟩ | ⟨lexeme, rest, happend, hne, hstep⟩
      · rw [hstep, hposition]
        rw [hrest] at hnone ⊢
        exact ⟨[], c, s, [], rfl, .last (.nil _), hnone, by simp⟩
      · have hle := length_le_of_lexeme happend hne hfuel
        have hnext : r.position.afterText lexeme = .counted file (before ++ lexeme) := by
          rw [hposition, Position.afterText_counted]
        rw [← happend]
        rcases hstep with ⟨hskipped, hstep⟩ | ⟨kind, hspells, hstep⟩
        · rw [hstep]
          exact .skip hskipped (ih (r := r.moveTo lexeme rest) hle hnext)
        · rw [hstep, hnext, hposition]
          exact .token hspells (ih (r := r.moveTo lexeme rest) hle hnext)

theorem scan_explains (source file : String) :
    Explains file [] source.toList [] (scan source file) :=
  scanFuel_explains (r := .new source file) (Nat.le_refl _) rfl

theorem cut_of_scan_ok {source file : String} {tokens : List Token}
    (h : scan source file = .ok tokens) :
    ∃ found, Cut file [] source.toList [] found ∧
      tokens = found ++ [Token.ending (.counted file source.toList)] := by
  have hexplains := scan_explains source file
  rw [h] at hexplains
  exact hexplains

theorem cut_of_scan_error {source file : String} {e : PlacedFault}
    (h : scan source file = .error e) :
    ∃ passed c rest found, source.toList = passed ++ c :: rest ∧
      Cut file [] passed (c :: rest) found ∧
      (∀ rule ∈ LexemeRule.ordered, rule.split (c :: rest) = none) ∧
      e = ⟨.unrecognised (String.singleton c), .counted file passed⟩ := by
  have hexplains := scan_explains source file
  rw [h] at hexplains
  exact hexplains

/-- Scanning ends, and it loses nothing.  Either the text is cut into gaps and tokens, the last token
being the end of the text, or a part of it in front of a character that starts no lexeme is, and this
character is refused in its place. -/
theorem scanning_cuts_text (source file : String) :
    (∀ extra, scanFuel (source.toList.length + extra) (.new source file) [] = scan source file) ∧
    match scan source file with
    | .ok tokens => ∃ found, Cut file [] source.toList [] found ∧
        tokens = found ++ [Token.ending (.counted file source.toList)]
    | .error e => ∃ passed c rest found, source.toList = passed ++ c :: rest ∧
        Cut file [] passed (c :: rest) found ∧
        (∀ rule ∈ LexemeRule.ordered, rule.split (c :: rest) = none) ∧
        e = ⟨.unrecognised (String.singleton c), .counted file passed⟩ := by
  refine ⟨fun extra => scanFuel_congr (Nat.le_add_right _ _) (Nat.le_refl _), ?_⟩
  cases hscan : scan source file with
  | ok tokens => exact cut_of_scan_ok hscan
  | error e => exact cut_of_scan_error hscan

end SlotLang
