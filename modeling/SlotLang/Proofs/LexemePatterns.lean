import SlotLang.Proofs.Scanning

/-!
# Lexemes by patterns

Each rule for lexemes has a pattern, which is made of single characters of a class, fixed texts and
repetitions.  A text may start with several texts of one pattern.  The ways to match are therefore
listed in the order in which they are preferred, and the first of them is the match.  A repetition
prefers to go on, except inside a comment in stars, where it prefers to stop.

The rules split a text exactly where their patterns match it.
-/

namespace SlotLang

/-! ## Patterns and their matches -/

inductive Pattern where
  | nothing
  | one (inClass : Char → Bool)
  /-- Any number of characters of a class, as many as possible. -/
  | most (inClass : Char → Bool)
  /-- Any number of characters of a class, as few as possible. -/
  | fewest (inClass : Char → Bool)
  | followedBy (first second : Pattern)

namespace Pattern

def literal (text : List Char) : Pattern :=
  text.foldr (fun c more => .followedBy (.one (· = c)) more) .nothing

/-- At least one character of a class, as many as possible. -/
def atLeastOne (inClass : Char → Bool) : Pattern :=
  .followedBy (.one inClass) (.most inClass)

/-- The way to split a text that starts with `passed`, given a way to split what follows. -/
def behind (passed : List Char) (way : List Char × List Char) : List Char × List Char :=
  (passed ++ way.1, way.2)

/-- The ways to split off characters of a class, the shortest first. -/
def runs (inClass : Char → Bool) : List Char → List (List Char × List Char)
  | [] => [([], [])]
  | c :: s => ([], c :: s) :: if inClass c then (runs inClass s).map (behind [c]) else []

/-- The ways to split off a text of the pattern, the preferred one first. -/
def ways : Pattern → List Char → List (List Char × List Char)
  | nothing, s => [([], s)]
  | one inClass, c :: s => if inClass c then [([c], s)] else []
  | one _, [] => []
  | most inClass, s => (runs inClass s).reverse
  | fewest inClass, s => runs inClass s
  | followedBy first second, s =>
      (first.ways s).flatMap fun way => (second.ways way.2).map (behind way.1)

/-- The match at the start of a text, with the text behind it. -/
def match? (p : Pattern) (s : List Char) : Option (List Char × List Char) :=
  (p.ways s).head?

@[simp] theorem behind_nil : behind [] = id := rfl

@[simp] theorem behind_fst (passed : List Char) (way : List Char × List Char) :
    (behind passed way).1 = passed ++ way.1 := rfl

@[simp] theorem behind_snd (passed : List Char) (way : List Char × List Char) :
    (behind passed way).2 = way.2 := rfl

@[simp] theorem behind_behind (passed more : List Char) (way : List Char × List Char) :
    behind passed (behind more way) = behind (passed ++ more) way := by
  simp [behind]

theorem ways_literal (text s : List Char) :
    (literal text).ways s = ((text.isPrefixOf? s).map fun rest => (text, rest)).toList := by
  induction text generalizing s with
  | nil => rfl
  | cons d text ih =>
    have hliteral : literal (d :: text) = .followedBy (.one (· = d)) (literal text) := rfl
    cases s with
    | nil => simp [hliteral, ways, List.isPrefixOf?]
    | cons c s =>
      by_cases hd : d = c
      · subst hd
        cases hmore : text.isPrefixOf? s <;>
          simp [hliteral, ways, List.isPrefixOf?, ih, hmore, behind]
      · simp [hliteral, ways, List.isPrefixOf?, hd, Ne.symm hd]

theorem match_literal (text s : List Char) :
    (literal text).match? s = (text.isPrefixOf? s).map fun rest => (text, rest) := by
  rw [match?, ways_literal, Option.head?_toList]

theorem match_one_followedBy (inClass : Char → Bool) (p : Pattern) (c : Char) (s : List Char) :
    (followedBy (.one inClass) p).match? (c :: s) =
      if inClass c then (p.match? s).map (behind [c]) else none := by
  by_cases hc : inClass c <;> simp [match?, ways, hc]

theorem match_literal_followedBy (text : List Char) (p : Pattern) (s : List Char) :
    (followedBy (literal text) p).match? s =
      (text.isPrefixOf? s).bind fun rest => (p.match? rest).map (behind text) := by
  cases hrest : text.isPrefixOf? s <;> simp [match?, ways, ways_literal, hrest]

/-- The longest run is the last one. -/
theorem getLast_runs (inClass : Char → Bool) (s : List Char) :
    (runs inClass s).getLast? = some (s.takeWhile inClass, s.dropWhile inClass) := by
  induction s with
  | nil => rfl
  | cons c s ih =>
    by_cases hc : inClass c
    · simp [runs, hc, List.getLast?_cons, ih, behind]
    · simp [runs, hc]

theorem match_most (inClass : Char → Bool) (s : List Char) :
    (most inClass).match? s = some (s.takeWhile inClass, s.dropWhile inClass) := by
  rw [match?, ways, List.head?_reverse, getLast_runs]

theorem match_atLeastOne (inClass : Char → Bool) (s : List Char) :
    (atLeastOne inClass).match? s = LexemeRule.splitRun inClass s := by
  cases s with
  | nil => rfl
  | cons c s =>
    simp [atLeastOne, match_one_followedBy, match_most, LexemeRule.splitRun, behind]

/-- A repetition that prefers to stop does so here, or else where it would stop one character
later. -/
theorem match_fewest_followedBy (p : Pattern) (c : Char) (s : List Char) :
    (followedBy (.fewest fun _ => true) p).match? (c :: s) =
      (p.match? (c :: s)).or
        (((followedBy (.fewest fun _ => true) p).match? s).map (behind [c])) := by
  simp [match?, ways, runs, List.head?_flatMap, List.findSome?_map, List.map_findSome?,
    Function.comp_def]

end Pattern

/-! ## The patterns of the rules -/

namespace Text

/-- Whether a character lies in one of the intervals. -/
def within (intervals : List (Char × Char)) (c : Char) : Bool :=
  intervals.any fun interval => interval.1 ≤ c && c ≤ interval.2

def letters : List (Char × Char) := [('a', 'z'), ('A', 'Z')]

def digits : List (Char × Char) := [('0', '9')]

def wordParts : List (Char × Char) := letters ++ digits ++ [('_', '_')]

end Text

namespace LexemeRule

open Text

/-- The texts that a rule takes.  A kind without a spelling has no mark. -/
def pattern : LexemeRule → Pattern
  | word => .followedBy (.one (within letters)) (.most (within wordParts))
  | number => .atLeastOne (within digits)
  | blanks => .atLeastOne Text.isBlank
  | lineComment => .followedBy (.literal ['/', '/']) (.most (· ≠ '\n'))
  | blockComment =>
      .followedBy (.literal ['/', '*'])
        (.followedBy (.fewest fun _ => true) (.literal ['*', '/']))
  | mark kind =>
      match kind.spelling? with
      | some spelling => .literal spelling.toList
      | none => .one fun _ => false

theorem within_letters : within letters = isWordStart := by
  funext c
  have hstart : isWordStart c = (decide ('A'.val ≤ c.val ∧ c.val ≤ 'Z'.val) ||
      (decide ('a'.val ≤ c.val) && decide (c.val ≤ 'z'.val))) := rfl
  rw [hstart]
  simp [within, letters, Char.le_def, Bool.or_comm]

theorem within_digits : within digits = Char.isDigit := by
  funext c
  have hdigit : c.isDigit = (decide ('0'.val ≤ c.val) && decide (c.val ≤ '9'.val)) := rfl
  rw [hdigit]
  simp [within, digits, Char.le_def]

theorem within_wordParts : within wordParts = isWordPart := by
  funext c
  have hsplit : within wordParts c =
      (within letters c || within digits c || within [('_', '_')] c) := by
    simp [within, wordParts, Bool.or_assoc]
  have hunderscore : within [('_', '_')] c = decide (c = '_') := by
    simp only [within, List.any_cons, List.any_nil, Bool.or_false, ← Bool.decide_and]
    exact decide_eq_decide.mpr
      ⟨fun h => Char.le_antisymm h.2 h.1, fun h => by simp [h]⟩
  rw [hsplit, within_letters, within_digits, hunderscore]
  rfl

theorem isPrefixOf_eq_none {text s : List Char} (h : ∀ rest, text ++ rest ≠ s) :
    text.isPrefixOf? s = none := by
  rw [Option.eq_none_iff_forall_ne_some]
  intro rest hrest
  exact h rest (List.isPrefixOf?_eq_some_iff_append_eq.mp hrest)

/-- A comment in stars ends where its pattern ends. -/
theorem splitClosing_eq (passed s : List Char) :
    splitClosing passed s =
      ((Pattern.followedBy (.fewest fun _ => true) (.literal ['*', '/'])).match? s).map
        (Pattern.behind passed.reverse) := by
  fun_induction splitClosing passed s with
  | case1 passed rest =>
    simp [Pattern.match_fewest_followedBy, Pattern.match_literal, List.isPrefixOf?, Pattern.behind]
  | case2 passed c s hopen ih =>
    have hnone : ['*', '/'].isPrefixOf? (c :: s) = none := by
      refine isPrefixOf_eq_none fun rest hrest => ?_
      obtain ⟨hc, hs⟩ := List.cons.inj hrest
      exact hopen rest hc.symm hs.symm
    simp [Pattern.match_fewest_followedBy, Pattern.match_literal, hnone, ih, Function.comp_def]
  | case3 passed => rfl

/-- A rule splits a text where its pattern matches it. -/
theorem split_eq_match (rule : LexemeRule) (s : List Char) :
    rule.split s = rule.pattern.match? s := by
  cases rule with
  | word =>
    cases s with
    | nil => rfl
    | cons c s =>
      simp [split, pattern, Pattern.match_one_followedBy, Pattern.match_most, within_letters,
        within_wordParts, Pattern.behind]
  | number => simp [split, pattern, Pattern.match_atLeastOne, within_digits]
  | blanks => simp [split, pattern, Pattern.match_atLeastOne]
  | lineComment =>
    simp only [split, pattern, Pattern.match_literal_followedBy, Pattern.match_most]
    split
    next rest => simp [List.isPrefixOf?, Pattern.behind]
    next hne =>
      have hnone : ['/', '/'].isPrefixOf? s = none :=
        isPrefixOf_eq_none fun rest hrest => hne rest hrest.symm
      simp [hnone]
  | blockComment =>
    simp only [split, pattern, Pattern.match_literal_followedBy]
    split
    next rest => simp [List.isPrefixOf?, splitClosing_eq]
    next hne =>
      have hnone : ['/', '*'].isPrefixOf? s = none :=
        isPrefixOf_eq_none fun rest hrest => hne rest hrest.symm
      simp [hnone]
  | mark kind =>
    cases hspelling : kind.spelling? with
    | none => cases s <;> simp [split, pattern, hspelling, Pattern.match?, Pattern.ways]
    | some spelling => simp [split, pattern, hspelling, Pattern.match_literal]

end LexemeRule
end SlotLang
