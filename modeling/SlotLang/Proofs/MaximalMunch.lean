import SlotLang.Proofs.LexemePatterns
import SlotLang.Proofs.Printing

/-!
# The first rule takes the most

The rules for lexemes are tried in a fixed order, and the first one that applies is used.  It is the
only one that takes so much of the text: every other rule that applies takes less.  Letters, digits
and blanks lead to one rule each.  All other rules start with a fixed text, and none of these texts
starts the fixed text of a later rule.  So a later rule can only apply with a shorter one.  How far
the text has to be read to choose the rule has no bound, because a stroke and a star open a comment
only if the comment is closed somewhere.

A text to which no rule applies starts with a character that no lexeme starts with.
-/

namespace SlotLang

/-! ## What a pattern prefers -/

namespace Pattern

/-- A pattern that matches in one way at most. -/
def Rigid (p : Pattern) : Prop :=
  ∀ s, (p.ways s).length ≤ 1

/-- A pattern whose match is the longest of the ways to match. -/
def Greedy (p : Pattern) : Prop :=
  ∀ s, ∀ best ∈ p.match? s, ∀ way ∈ p.ways s, way.1.length ≤ best.1.length

theorem rigid_one (inClass : Char → Bool) : (one inClass).Rigid := by
  intro s
  cases s with
  | nil => simp [ways]
  | cons c s => by_cases hc : inClass c <;> simp [ways, hc]

theorem rigid_literal (text : List Char) : (literal text).Rigid := by
  intro s
  rw [ways_literal]
  cases text.isPrefixOf? s <;> simp

theorem Rigid.ways_eq {p : Pattern} (hp : p.Rigid) (s : List Char) :
    p.ways s = (p.match? s).toList := by
  unfold match?
  cases hways : p.ways s with
  | nil => rfl
  | cons way more =>
    have hmore : more = [] := by simpa [hways] using hp s
    rw [hmore]
    rfl

theorem Rigid.greedy {p : Pattern} (hp : p.Rigid) : p.Greedy := by
  intro s best hbest way hway
  rw [hp.ways_eq, Option.mem_def.mp hbest, Option.toList_some, List.mem_singleton] at hway
  rw [hway]

theorem length_le_of_mem_runs {inClass : Char → Bool} {s : List Char}
    {way : List Char × List Char} (h : way ∈ runs inClass s) :
    way.1.length ≤ (s.takeWhile inClass).length := by
  induction s generalizing way with
  | nil => simp_all [runs]
  | cons c s ih =>
    by_cases hc : inClass c
    · simp only [runs, hc, if_true, List.mem_cons, List.mem_map] at h
      rcases h with rfl | ⟨shorter, hshorter, rfl⟩
      · simp
      · simpa [hc] using ih hshorter
    · simp_all [runs]

theorem greedy_most (inClass : Char → Bool) : (most inClass).Greedy := by
  intro s best hbest way hway
  rw [match_most] at hbest
  cases hbest
  exact length_le_of_mem_runs (List.mem_reverse.mp hway)

/-- Behind a part that matches in one way, the longest match is the one that goes on the longest. -/
theorem Rigid.greedy_followedBy {p q : Pattern} (hp : p.Rigid) (hq : q.Greedy) :
    (followedBy p q).Greedy := by
  intro s best hbest way hway
  have hways := hp.ways_eq s
  cases hfirst : p.match? s with
  | none =>
    rw [hfirst] at hways
    simp [match?, ways, hways] at hbest
  | some first =>
    rw [hfirst] at hways
    simp only [match?, ways, hways, Option.toList_some, List.flatMap_cons, List.flatMap_nil,
      List.append_nil, List.head?_map, Option.mem_def, Option.map_eq_some_iff,
      List.mem_map] at hbest hway
    obtain ⟨best, hbest, rfl⟩ := hbest
    obtain ⟨way, hway, rfl⟩ := hway
    have hle := hq first.2 best hbest way hway
    simpa using hle

end Pattern

namespace LexemeRule

theorem rigid_mark (kind : TokenKind) : (mark kind).pattern.Rigid := by
  simp only [pattern]
  split
  · exact Pattern.rigid_literal _
  · exact Pattern.rigid_one _

theorem greedy_pattern {rule : LexemeRule} (h : rule ≠ blockComment) : rule.pattern.Greedy := by
  cases rule with
  | word | number | blanks => exact (Pattern.rigid_one _).greedy_followedBy (Pattern.greedy_most _)
  | lineComment => exact (Pattern.rigid_literal _).greedy_followedBy (Pattern.greedy_most _)
  | blockComment => contradiction
  | mark kind => exact (rigid_mark kind).greedy

/-! ## How lexemes start -/

/-- The fixed text that the lexemes of a rule start with. -/
def opening : LexemeRule → List Char
  | word | number | blanks => []
  | lineComment => ['/', '/']
  | blockComment => ['/', '*']
  | mark kind => (kind.spelling?.getD "").toList

variable {rule : LexemeRule} {c : Char} {s lexeme rest : List Char}

@[simp] theorem split_word_cons_eq_none : word.split (c :: s) = none ↔ isWordStart c = false := by
  simp [split]

@[simp] theorem split_number_cons_eq_none : number.split (c :: s) = none ↔ c.isDigit = false := by
  simp [split, splitRun]

@[simp] theorem split_blanks_cons_eq_none :
    blanks.split (c :: s) = none ↔ Text.isBlank c = false := by
  simp [split, splitRun]

theorem opening_isPrefix (h : rule.split s = some (lexeme, rest)) : rule.opening <+: lexeme := by
  cases rule with
  | word | number | blanks => exact List.nil_prefix
  | lineComment =>
    simp only [split] at h
    split at h
    next s =>
      cases h
      exact ⟨_, rfl⟩
    next => simp at h
  | blockComment =>
    simp only [split] at h
    split at h
    next s =>
      obtain ⟨body, -, rfl, -⟩ := splitClosing_eq_some h
      exact ⟨body ++ ['*', '/'], rfl⟩
    next => simp at h
  | mark kind =>
    obtain ⟨-, -, hspelling⟩ := split_mark_eq_some h
    simp [opening, hspelling]

theorem opening_isPrefix_text (h : rule.split s = some (lexeme, rest)) : rule.opening <+: s :=
  (opening_isPrefix h).trans ⟨rest, (split_eq_some h).1⟩

theorem eq_opening_of_split_mark {kind : TokenKind}
    (h : (mark kind).split s = some (lexeme, rest)) : lexeme = (mark kind).opening := by
  obtain ⟨-, -, hspelling⟩ := split_mark_eq_some h
  simp [opening, hspelling]

/-- The rules with a fixed start, which stand behind those for words, numbers and blanks. -/
def opened : List LexemeRule := ordered.drop 3

theorem ordered_eq : ordered = word :: number :: blanks :: opened := rfl

theorem opening_apart : (opened.all fun rule =>
    rule.opening.head?.any fun c => !isWordPart c && !Text.isBlank c) = true := by
  decide +kernel

theorem length_opening_le : (opened.all fun rule => rule.opening.length ≤ 2) = true := by
  decide +kernel

/-- No fixed start of a rule starts that of a later rule. -/
theorem pairwise_opening : opened.Pairwise fun earlier later =>
    earlier.opening.isPrefixOf later.opening = false := by
  decide +kernel

/-- A letter, a digit or a blank does not start a lexeme that has a fixed start. -/
theorem split_opened_eq_none (hrule : rule ∈ opened)
    (hc : isWordPart c = true ∨ Text.isBlank c = true) : rule.split (c :: s) = none := by
  rw [Option.eq_none_iff_forall_ne_some]
  rintro ⟨lexeme, rest⟩ hsplit
  have hstart := opening_isPrefix_text hsplit
  have hapart := List.all_eq_true.mp opening_apart rule hrule
  cases hopening : rule.opening with
  | nil => simp [hopening] at hapart
  | cons d more =>
    rw [hopening, List.cons_prefix_cons] at hstart
    rw [hopening, hstart.1] at hapart
    rcases hc with hc | hc <;> simp [hc] at hapart

/-! ## Which rule takes more -/

theorem exists_split_of_mem_ways {way : List Char × List Char} (h : way ∈ rule.pattern.ways s) :
    ∃ lexeme rest, rule.split s = some (lexeme, rest) := by
  cases hways : rule.pattern.ways s with
  | nil => simp [hways] at h
  | cons best others => exact ⟨best.1, best.2, by simp [split_eq_match, Pattern.match?, hways]⟩

/-- Where the earlier rule applies, it takes more than the later one could in any way. -/
def Outdoes (earlier later : LexemeRule) : Prop :=
  ∀ s, ∀ taken ∈ earlier.split s, ∀ way ∈ later.pattern.ways s, way.1.length < taken.1.length

theorem outdoes_of_excluded {earlier later : LexemeRule}
    (h : ∀ c s, earlier.split (c :: s) ≠ none → later.split (c :: s) = none) :
    Outdoes earlier later := by
  intro s taken htaken way hway
  obtain ⟨other, otherRest, hother⟩ := exists_split_of_mem_ways hway
  obtain ⟨happend, hne⟩ := split_eq_some hother
  cases s with
  | nil => exact absurd (List.append_eq_nil_iff.mp happend).1 hne
  | cons c s =>
    have hnone := h c s (by simp [Option.mem_def.mp htaken])
    rw [hnone] at hother
    contradiction

theorem outdoes_word : ∀ later ∈ number :: blanks :: opened, Outdoes word later := by
  intro later hlater
  refine outdoes_of_excluded fun c s hword => ?_
  have hstart : isWordStart c = true := by simpa using hword
  have hpart := isWordPart_of_isWordStart hstart
  rcases List.mem_cons.mp hlater with rfl | hlater
  · exact split_number_cons_eq_none.mpr (isDigit_of_isWordStart hstart)
  rcases List.mem_cons.mp hlater with rfl | hlater
  · exact split_blanks_cons_eq_none.mpr (isBlank_of_isWordPart hpart)
  · exact split_opened_eq_none hlater (.inl hpart)

theorem outdoes_number : ∀ later ∈ blanks :: opened, Outdoes number later := by
  intro later hlater
  refine outdoes_of_excluded fun c s hnumber => ?_
  have hdigit : c.isDigit = true := by simpa using hnumber
  have hpart := isWordPart_of_isDigit hdigit
  rcases List.mem_cons.mp hlater with rfl | hlater
  · exact split_blanks_cons_eq_none.mpr (isBlank_of_isWordPart hpart)
  · exact split_opened_eq_none hlater (.inl hpart)

theorem outdoes_blanks : ∀ later ∈ opened, Outdoes blanks later := by
  intro later hlater
  refine outdoes_of_excluded fun c s hblanks => ?_
  have hblank : Text.isBlank c = true := by simpa using hblanks
  exact split_opened_eq_none hlater (.inr hblank)

/-- Of two fixed starts of one text the shorter starts the longer, so it is the later one. -/
theorem outdoes_of_opening {earlier later : LexemeRule} (hearlier : earlier ∈ opened)
    (hlater : later ∈ opened) (h : earlier.opening.isPrefixOf later.opening = false) :
    Outdoes earlier later := by
  rintro s ⟨lexeme, rest⟩ hsplit way hway
  obtain ⟨other, otherRest, hother⟩ := exists_split_of_mem_ways hway
  have hshorter : later.opening.length < earlier.opening.length := by
    by_contra hle
    have hstart := List.prefix_of_prefix_length_le (opening_isPrefix_text hsplit)
      (opening_isPrefix_text hother) (Nat.not_lt.mp hle)
    rw [List.isPrefixOf_iff_prefix.mpr hstart] at h
    contradiction
  have hlexeme := (opening_isPrefix hsplit).length_le
  cases later with
  | word | number | blanks => exact absurd hlater (by decide)
  | lineComment | blockComment =>
    -- No fixed start is longer than that of a comment.
    have hle : earlier.opening.length ≤ 2 := by
      simpa using List.all_eq_true.mp length_opening_le earlier hearlier
    exact absurd hshorter (Nat.not_lt.mpr hle)
  | mark kind =>
    have hway : way = (other, otherRest) := by
      simpa [(rigid_mark kind).ways_eq, ← split_eq_match, hother] using hway
    rw [hway, eq_opening_of_split_mark hother]
    exact Nat.lt_of_lt_of_le hshorter hlexeme

theorem pairwise_outdoes : ordered.Pairwise Outdoes := by
  rw [ordered_eq]
  exact .cons outdoes_word <| .cons outdoes_number <| .cons outdoes_blanks <|
    pairwise_opening.imp_of_mem outdoes_of_opening

theorem exists_order_of_first (h : first? s = some (rule, lexeme, rest)) :
    ∃ before after, ordered = before ++ rule :: after ∧ rule.split s = some (lexeme, rest) ∧
      ∀ other ∈ before, other.split s = none := by
  obtain ⟨before, found, after, hordered, hfound, hbefore⟩ := List.findSome?_eq_some_iff.mp h
  obtain ⟨parts, hsplit, heq⟩ := Option.map_eq_some_iff.mp hfound
  cases heq
  exact ⟨before, after, hordered, hsplit, fun other hother => by simpa using hbefore other hother⟩

theorem length_lt_of_first (h : first? s = some (rule, lexeme, rest)) {other : LexemeRule}
    (hother : other ∈ ordered) (hne : other ≠ rule) {way : List Char × List Char}
    (hway : way ∈ other.pattern.ways s) : way.1.length < lexeme.length := by
  obtain ⟨before, after, hordered, hsplit, hbefore⟩ := exists_order_of_first h
  have hpairs := pairwise_outdoes
  rw [hordered, List.pairwise_append, List.pairwise_cons] at hpairs
  rw [hordered, List.mem_append, List.mem_cons] at hother
  rcases hother with hother | hother | hother
  · obtain ⟨_, _, happlies⟩ := exists_split_of_mem_ways hway
    rw [hbefore other hother] at happlies
    contradiction
  · contradiction
  · exact hpairs.2.1.1 other hother s _ hsplit way hway

/-! ## Where no rule applies -/

/-- The marks of a single character. -/
def singleMarks : List Char := "[]\x7b\x7d()=<>.;:?,+-/*".toList

theorem opening_single : (opened.all fun rule =>
    rule.opening = ['!', '='] || rule.opening.head?.any (· ∈ singleMarks)) = true := by
  decide +kernel

theorem single_opening : (singleMarks.all fun c => TokenKind.all.any fun kind =>
    mark kind ∈ ordered ∧ kind.spelling? = some (String.singleton c)) = true := by
  decide +kernel

theorem exists_split_of_single (hc : c ∈ singleMarks) :
    ∃ rule ∈ ordered, rule.split (c :: s) ≠ none := by
  obtain ⟨kind, -, hkind⟩ := List.any_eq_true.mp (List.all_eq_true.mp single_opening c hc)
  obtain ⟨hmem, hspelling⟩ := of_decide_eq_true hkind
  exact ⟨mark kind, hmem, by simp [split, hspelling, List.isPrefixOf?]⟩

/-- A rule with a fixed start applies only at a mark of a single character or at `!=`. -/
theorem starts_of_split_opened (hrule : rule ∈ opened) (h : rule.split (c :: s) ≠ none) :
    c ∈ singleMarks ∨ (c = '!' ∧ s.head? = some '=') := by
  obtain ⟨⟨lexeme, rest⟩, hsplit⟩ := Option.ne_none_iff_exists'.mp h
  have hstart := opening_isPrefix_text hsplit
  have hsingle := List.all_eq_true.mp opening_single rule hrule
  rcases Bool.or_eq_true_iff.mp hsingle with hopening | hopening
  · rw [of_decide_eq_true hopening] at hstart
    obtain ⟨more, hmore⟩ := hstart
    cases hmore
    exact .inr ⟨rfl, rfl⟩
  · cases hhead : rule.opening with
    | nil => simp [hhead] at hopening
    | cons d more =>
      rw [hhead, List.cons_prefix_cons] at hstart
      rw [hhead, hstart.1] at hopening
      exact .inl (by simpa using hopening)

theorem split_eq_none_iff (c : Char) (s : List Char) :
    (∀ rule ∈ ordered, rule.split (c :: s) = none) ↔
      isWordStart c = false ∧ c.isDigit = false ∧ Text.isBlank c = false ∧ c ∉ singleMarks ∧
        ¬(c = '!' ∧ s.head? = some '=') := by
  constructor
  · intro hnone
    have hword := hnone word (by decide)
    have hnumber := hnone number (by decide)
    have hblanks := hnone blanks (by decide)
    refine ⟨split_word_cons_eq_none.mp hword, split_number_cons_eq_none.mp hnumber,
      split_blanks_cons_eq_none.mp hblanks, ?_, ?_⟩
    · intro hc
      obtain ⟨rule, hrule, hsplit⟩ := exists_split_of_single hc
      exact hsplit (hnone rule hrule)
    · rintro ⟨rfl, hs⟩
      obtain ⟨rest, rfl⟩ := List.head?_eq_some_iff.mp hs
      have hunequal := hnone (mark .notEquals) (by decide)
      simp [split, TokenKind.spelling?, List.isPrefixOf?] at hunequal
  · rintro ⟨hword, hdigit, hblank, hsingle, hunequal⟩ rule hrule
    rw [ordered_eq] at hrule
    simp only [List.mem_cons] at hrule
    rcases hrule with rfl | rfl | rfl | hrule
    · exact split_word_cons_eq_none.mpr hword
    · exact split_number_cons_eq_none.mpr hdigit
    · exact split_blanks_cons_eq_none.mpr hblank
    · by_contra hsplit
      exact (starts_of_split_opened hrule hsplit).elim hsingle hunequal

/-! ## What is passed -/

/-- What a scan passes once a rule is chosen: a mark by its spelling, and anything else by the match,
which is found again. -/
def passed (rule : LexemeRule) (s : List Char) : List Char :=
  match rule with
  | mark kind => (kind.spelling?.getD "").toList
  | other => ((other.pattern.match? s).map Prod.fst).getD []

theorem passed_eq (h : rule.split s = some (lexeme, rest)) : rule.passed s = lexeme := by
  cases rule with
  | word | number | blanks | lineComment | blockComment =>
    simp [passed, ← split_eq_match, h]
  | mark kind => exact (eq_opening_of_split_mark h).symm

/-- The token that a lexeme becomes, if it becomes one. -/
def token? (rule : LexemeRule) (lexeme : List Char) (position : Position) : Option Token :=
  (rule.kind? lexeme).map fun kind =>
    ⟨kind, String.ofList lexeme, position, position.afterText lexeme⟩

end LexemeRule

/-- A move by the size of a text passes this text. -/
theorem Reader.splitBytes_append (lexeme rest : List Char) :
    splitBytes? (Text.byteSize lexeme) (lexeme ++ rest) = some (lexeme, rest) := by
  induction lexeme with
  | nil => cases rest <;> simp [splitBytes?]
  | cons c lexeme ih =>
    obtain ⟨count, hcount⟩ : ∃ count, Text.byteSize (c :: lexeme) = count + 1 :=
      Nat.exists_eq_add_one.mpr (Nat.add_pos_left c.utf8Size_pos _)
    have hfits : c.utf8Size ≤ count + 1 := by
      rw [← hcount]
      exact Nat.le_add_right _ _
    have hmore : count + 1 - c.utf8Size = Text.byteSize lexeme := by
      rw [← hcount]
      exact Nat.add_sub_cancel_left _ _
    simp [hcount, splitBytes?, hfits, hmore, ih]

/-- The first rule that applies to a text is the only one with the longest match: no other rule has
any way to match so much.  Neither has the rule itself, apart from comments in stars, which end as
early as they can.  The match is not empty, and it is what a scan passes, in characters and in bytes.
No rule applies if and only if the text starts with a character that is no letter, no digit, no blank
and no mark of a single character, and that is no `!` in front of a `=`. -/
theorem first_rule_takes_longest (c : Char) (s : List Char) :
    (match LexemeRule.first? (c :: s) with
      | some (rule, lexeme, rest) =>
          (∃ before after, LexemeRule.ordered = before ++ rule :: after ∧
            ∀ other ∈ before, other.pattern.match? (c :: s) = none) ∧
          rule.pattern.match? (c :: s) = some (lexeme, rest) ∧
          lexeme ++ rest = c :: s ∧ lexeme ≠ [] ∧
          (∀ other ∈ LexemeRule.ordered, other ≠ rule →
            ∀ way ∈ other.pattern.ways (c :: s), way.1.length < lexeme.length) ∧
          (rule ≠ .blockComment →
            ∀ way ∈ rule.pattern.ways (c :: s), way.1.length ≤ lexeme.length) ∧
          rule.passed (c :: s) = lexeme ∧
          Reader.splitBytes? (Text.byteSize (rule.passed (c :: s))) (c :: s) =
            some (lexeme, rest) ∧
          ∀ position offset fuel found,
            scanFuel (fuel + 1) ⟨c :: s, position, offset⟩ found =
              scanFuel fuel (Reader.moveTo ⟨c :: s, position, offset⟩ lexeme rest)
                ((rule.token? lexeme position).toList ++ found)
      | none =>
          (∀ rule ∈ LexemeRule.ordered, rule.pattern.match? (c :: s) = none) ∧
          ∀ position offset fuel found,
            scanFuel (fuel + 1) ⟨c :: s, position, offset⟩ found =
              .error ⟨.unrecognised (String.singleton c), position⟩) ∧
    ((∀ rule ∈ LexemeRule.ordered, rule.pattern.match? (c :: s) = none) ↔
      Text.within Text.letters c = false ∧ Text.within Text.digits c = false ∧
        Text.isBlank c = false ∧ c ∉ LexemeRule.singleMarks ∧
        ¬(c = '!' ∧ s.head? = some '=')) := by
  simp only [← LexemeRule.split_eq_match, LexemeRule.within_letters, LexemeRule.within_digits]
  refine ⟨?_, LexemeRule.split_eq_none_iff c s⟩
  split
  next rule lexeme rest hfirst =>
    obtain ⟨before, after, hordered, hsplit, hbefore⟩ := LexemeRule.exists_order_of_first hfirst
    obtain ⟨happend, hne⟩ := LexemeRule.split_eq_some hsplit
    have hpassed := LexemeRule.passed_eq hsplit
    refine ⟨⟨before, after, hordered, hbefore⟩, hsplit, happend, hne, ?_, ?_, hpassed, ?_, ?_⟩
    · intro other hother hdiffers way hway
      exact LexemeRule.length_lt_of_first hfirst hother hdiffers hway
    · intro hrule way hway
      have hmatch := (LexemeRule.split_eq_match rule (c :: s)).symm.trans hsplit
      exact LexemeRule.greedy_pattern hrule _ _ hmatch way hway
    · rw [hpassed, ← happend]
      exact Reader.splitBytes_append lexeme rest
    · intro position offset fuel found
      cases hkind : rule.kind? lexeme <;>
        simp [scanFuel, hfirst, hkind, LexemeRule.token?, Reader.moveTo]
  next hnone =>
    refine ⟨LexemeRule.split_of_first_none hnone, ?_⟩
    intro position offset fuel found
    simp [scanFuel, hnone]

/-- A comment that could also end later, and a stroke that is not taken for a mark. -/
theorem first_rule_takes_longest_comment :
    LexemeRule.first? "/*:=*/*/".toList =
      some (.blockComment, "/*:=*/".toList, "*/".toList) ∧
    (LexemeRule.mark .slash).pattern.ways "/*:=*/*/".toList = [(['/'], "*:=*/*/".toList)] ∧
    ['/'].length < "/*:=*/".toList.length ∧
    LexemeRule.blockComment.passed "/*:=*/*/".toList = "/*:=*/".toList := by
  have hfirst : LexemeRule.first? "/*:=*/*/".toList =
      some (.blockComment, "/*:=*/".toList, "*/".toList) := by decide +kernel
  have hslash : (LexemeRule.mark .slash).pattern.ways "/*:=*/*/".toList =
      [(['/'], "*:=*/*/".toList)] := by decide +kernel
  have hlongest := (first_rule_takes_longest '/' "*:=*/*/".toList).1
  have htext : '/' :: "*:=*/*/".toList = "/*:=*/*/".toList := by decide
  rw [htext, hfirst] at hlongest
  obtain ⟨-, -, -, -, hothers, -, hpassed, -⟩ := hlongest
  refine ⟨hfirst, hslash, ?_, hpassed⟩
  exact hothers (.mark .slash) (by decide) (by decide) (['/'], "*:=*/*/".toList)
    (by rw [hslash]; exact List.mem_singleton.mpr rfl)

end SlotLang
