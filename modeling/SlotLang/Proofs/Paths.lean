import SlotLang.Proofs.Scanning
import SlotLang.Session

/-!
# Paths to scalars

A scalar inside of arrays and structs has a path: a name for each level, and behind each name the
indices that select an element.  A path is written in tokens, with any numerals for its indices, and
it is resolved by one composed name, in which the numerals are spelled in one way.  The path can be
read off the composed name, since neither words nor numerals contain a dot or a bracket.
-/

namespace SlotLang

/-! ## Numerals -/

namespace Text

/-- The spelling of an index in a composed name. -/
def canonical (numeral : String) : String :=
  match word? numeral with
  | some n => toString n
  | none => numeral

theorem decimalValue_toString (n : Nat) : decimalValue (toString n).toList = n := by
  have hvalue := Nat.ofDigitChars_toDigits (b := 10) (n := n) (by decide) (by decide)
  simpa [Nat.ofDigitChars, decimalValue, digitValue] using hvalue

theorem isDigit_of_mem_toString {n : Nat} {c : Char} (h : c ∈ (toString n).toList) :
    c.isDigit = true :=
  Nat.isDigit_of_mem_toDigits (b := 10) (by decide) (by decide) (n := n) (by simpa using h)

theorem lt_of_word {numeral : String} {n : Nat} (h : word? numeral = some n) : n < wordBound := by
  unfold word? at h
  split at h <;>
  · obtain ⟨value, -, hvalue⟩ := Option.bind_eq_some_iff.mp h
    grind

/-- A numeral of digits is read if its value fits into a word. -/
theorem word_of_spells {numeral : String} (h : TokenKind.number.Spells numeral) :
    word? numeral = if decimalValue numeral.toList < wordBound
      then some (decimalValue numeral.toList) else none := by
  obtain ⟨hne, hdigits⟩ := h
  have hall : digits? numeral.toList = some (decimalValue numeral.toList) := by
    simp only [digits?, List.all_eq_true]
    exact if_pos ⟨hne, hdigits⟩
  unfold word?
  split
  next digits hplus =>
    have hdigit := hdigits '+' (by simp [hplus])
    contradiction
  next => simp [hall, bind, Option.bind]

theorem canonical_of_lt {numeral : String} (h : TokenKind.number.Spells numeral)
    (hlt : decimalValue numeral.toList < wordBound) :
    canonical numeral = toString (decimalValue numeral.toList) := by
  simp only [canonical, word_of_spells h, if_pos hlt]

/-- Whether it fits or not, a numeral keeps its value. -/
theorem decimalValue_canonical {numeral : String} (h : TokenKind.number.Spells numeral) :
    decimalValue (canonical numeral).toList = decimalValue numeral.toList := by
  by_cases hlt : decimalValue numeral.toList < wordBound
  · rw [canonical_of_lt h hlt, decimalValue_toString]
  · simp only [canonical, word_of_spells h, if_neg hlt]

theorem canonical_isDigit {numeral : String} (h : TokenKind.number.Spells numeral) :
    ∀ c ∈ (canonical numeral).toList, c.isDigit = true := by
  intro c hc
  by_cases hlt : decimalValue numeral.toList < wordBound
  · rw [canonical_of_lt h hlt] at hc
    exact isDigit_of_mem_toString hc
  · simp only [canonical, word_of_spells h, if_neg hlt] at hc
    exact h.2 c hc

end Text

/-! ## Composed names -/

/-- A name with the texts of the indices behind it. -/
structure PathPart where
  name : String
  indices : List String
  deriving DecidableEq, Repr

namespace PathPart

def text (p : PathPart) : String :=
  p.name ++ String.join (p.indices.map fun index => "[" ++ index ++ "]")

/-- The name is a word, and there are only digits in the indices. -/
structure Plain (p : PathPart) : Prop where
  name : IsWord p.name
  indices : ∀ index ∈ p.indices, ∀ c ∈ index.toList, c.isDigit = true

end PathPart

/-- The parts of a path with dots between them. -/
def pathText : List PathPart → String
  | [] => ""
  | part :: parts => part.text ++ String.join (parts.map fun other => "." ++ other.text)

theorem intercalate_singleton_cons (c : Char) (first : List Char) (others : List (List Char)) :
    [c].intercalate (first :: others) = first ++ others.flatMap (c :: ·) := by
  induction others generalizing first with
  | nil => simp
  | cons next others ih => rw [List.intercalate_cons_cons, ih]; simp

namespace PathPart

theorem toList_text (p : PathPart) :
    p.text.toList =
      ['['].intercalate (p.name.toList :: p.indices.map fun index => index.toList ++ [']']) := by
  rw [intercalate_singleton_cons]
  simp [text, List.flatMap_map]

/-- Name and indices are what brackets separate. -/
theorem Plain.splitOn {p : PathPart} (h : p.Plain) :
    p.text.toList.splitOn '[' =
      p.name.toList :: p.indices.map fun index => index.toList ++ [']'] := by
  rw [toList_text]
  refine List.splitOn_intercalate '[' ?_ (by simp)
  intro chars hmem
  rcases List.mem_cons.mp hmem with rfl | hmem
  · exact h.name.not_mem (by decide) (by decide)
  · obtain ⟨index, hindex, rfl⟩ := List.mem_map.mp hmem
    have hdigits := h.indices index hindex '['
    grind

theorem Plain.text_inj {p q : PathPart} (hp : p.Plain) (hq : q.Plain) (h : p.text = q.text) :
    p = q := by
  have hparts := congrArg (fun text : String => text.toList.splitOn '[') h
  simp only [hp.splitOn, hq.splitOn, List.cons.injEq] at hparts
  obtain ⟨hname, hindices⟩ := hparts
  have hinj : Function.Injective fun index : String => index.toList ++ [']'] := by
    intro index other heq
    exact String.toList_inj.mp (List.append_cancel_right heq)
  obtain ⟨name, indices⟩ := p
  obtain ⟨name', indices'⟩ := q
  rw [PathPart.mk.injEq]
  exact ⟨String.toList_inj.mp hname, List.map_injective_iff.mpr hinj hindices⟩

theorem Plain.dot_not_mem {p : PathPart} (h : p.Plain) : '.' ∉ p.text.toList := by
  have hname : '.' ∉ p.name.toList := h.name.not_mem (by decide) (by decide)
  rw [toList_text, intercalate_singleton_cons]
  simp only [List.mem_append, List.mem_flatMap, List.mem_map]
  rintro (hmem | ⟨chars, ⟨index, hindex, rfl⟩, hmem⟩)
  · exact hname hmem
  · have hdigits := h.indices index hindex '.'
    grind

end PathPart

theorem toList_pathText (part : PathPart) (parts : List PathPart) :
    (pathText (part :: parts)).toList =
      ['.'].intercalate ((part :: parts).map fun other => other.text.toList) := by
  rw [List.map_cons, intercalate_singleton_cons]
  simp [pathText, List.flatMap_map]

theorem pathText_splitOn {parts : List PathPart} (hne : parts ≠ []) (h : ∀ p ∈ parts, p.Plain) :
    (pathText parts).toList.splitOn '.' = parts.map fun other => other.text.toList := by
  obtain ⟨part, parts, rfl⟩ := List.exists_cons_of_ne_nil hne
  rw [toList_pathText]
  refine List.splitOn_intercalate '.' ?_ (by simp)
  intro chars hmem
  obtain ⟨p, hp, rfl⟩ := List.mem_map.mp hmem
  exact (h p hp).dot_not_mem

/-- A path can be read off its composed name. -/
theorem pathText_inj {parts parts' : List PathPart} (hne : parts ≠ []) (hne' : parts' ≠ [])
    (h : ∀ p ∈ parts, p.Plain) (h' : ∀ p ∈ parts', p.Plain)
    (heq : pathText parts = pathText parts') : parts = parts' := by
  have hsplit := congrArg (fun text : String => text.toList.splitOn '.') heq
  simp only [pathText_splitOn hne h, pathText_splitOn hne' h'] at hsplit
  clear heq hne hne'
  induction parts generalizing parts' with
  | nil => simpa using hsplit.symm
  | cons p parts ih =>
    cases parts' with
    | nil => simp at hsplit
    | cons q parts' =>
      simp only [List.map_cons, List.cons.injEq] at hsplit
      have hfirst := (h p (by simp)).text_inj (h' q (by simp)) (String.toList_inj.mp hsplit.1)
      have hrest := ih (fun r hr => h r (by simp [hr])) (fun r hr => h' r (by simp [hr])) hsplit.2
      rw [hfirst, hrest]

/-! ## Steps -/

/-- One level of a path: a name and the numbers that its indices denote. -/
structure Step where
  name : String
  indices : List Nat
  deriving DecidableEq, Repr

def Step.part (s : Step) : PathPart := ⟨s.name, s.indices.map toString⟩

/-- The step that a part with numerals stands for. -/
def PathPart.step (p : PathPart) : Step :=
  ⟨p.name, p.indices.map fun index => Text.decimalValue index.toList⟩

@[simp] theorem Step.step_part (s : Step) : s.part.step = s := by
  simp only [Step.part, PathPart.step, List.map_map, Function.comp_def, Text.decimalValue_toString,
    List.map_id']

/-- The composed name of the scalar that a path leads to. -/
def pathName (steps : List Step) : String := pathText (steps.map Step.part)

theorem Step.part_plain {s : Step} (h : IsWord s.name) : s.part.Plain where
  name := h
  indices := by
    intro index hindex c hc
    obtain ⟨n, -, rfl⟩ := List.mem_map.mp hindex
    exact Text.isDigit_of_mem_toString hc

theorem pathName_inj {steps steps' : List Step} (hne : steps ≠ []) (hne' : steps' ≠ [])
    (h : ∀ s ∈ steps, IsWord s.name) (h' : ∀ s ∈ steps', IsWord s.name)
    (heq : pathName steps = pathName steps') : steps = steps' := by
  have hparts := pathText_inj (by simpa using hne) (by simpa using hne')
    (List.forall_mem_map.mpr fun s hs => Step.part_plain (h s hs))
    (List.forall_mem_map.mpr fun s hs => Step.part_plain (h' s hs)) heq
  simpa [Function.comp_def] using congrArg (List.map PathPart.step) hparts

/-! ## Written paths -/

namespace PathPart

/-- A part as it is written: a word, and a numeral for each index. -/
structure Written (p : PathPart) : Prop where
  name : IsWord p.name
  numerals : ∀ index ∈ p.indices, TokenKind.number.Spells index

/-- The same part with its numerals spelled in one way. -/
def canonical (p : PathPart) : PathPart := ⟨p.name, p.indices.map Text.canonical⟩

namespace Written

variable {p : PathPart}

theorem canonical_plain (h : p.Written) : p.canonical.Plain where
  name := h.name
  indices := by
    intro index hindex c hc
    obtain ⟨numeral, hnumeral, rfl⟩ := List.mem_map.mp hindex
    exact Text.canonical_isDigit (h.numerals numeral hnumeral) c hc

theorem canonical_eq (h : p.Written) (hbound : ∀ n ∈ p.step.indices, n < Text.wordBound) :
    p.canonical = p.step.part := by
  have hindices : p.indices.map Text.canonical =
      (p.indices.map fun index => Text.decimalValue index.toList).map toString := by
    rw [List.map_map]
    refine List.map_congr_left fun index hindex => ?_
    exact Text.canonical_of_lt (h.numerals index hindex)
      (hbound _ (List.mem_map.mpr ⟨index, hindex, rfl⟩))
  simp only [canonical, step, Step.part, hindices]

theorem step_canonical (h : p.Written) : p.canonical.step = p.step := by
  simp only [canonical, step, List.map_map, Step.mk.injEq, true_and]
  exact List.map_congr_left fun index hindex =>
    Text.decimalValue_canonical (h.numerals index hindex)

end Written
end PathPart

theorem pathText_canonical {parts : List PathPart} (h : ∀ p ∈ parts, p.Written)
    (hbound : ∀ s ∈ parts.map PathPart.step, ∀ n ∈ s.indices, n < Text.wordBound) :
    pathText (parts.map PathPart.canonical) = pathName (parts.map PathPart.step) := by
  rw [pathName, List.map_map]
  congr 1
  exact List.map_congr_left fun p hp =>
    (h p hp).canonical_eq (hbound _ (List.mem_map.mpr ⟨p, hp, rfl⟩))

/-- A written path that is spelled like the path to a scalar is this path. -/
theorem steps_of_pathText_eq {parts : List PathPart} {steps : List Step} (hne : parts ≠ [])
    (hne' : steps ≠ []) (h : ∀ p ∈ parts, p.Written) (h' : ∀ s ∈ steps, IsWord s.name)
    (heq : pathText (parts.map PathPart.canonical) = pathName steps) :
    parts.map PathPart.step = steps := by
  have hparts := pathText_inj (by simpa using hne) (by simpa using hne')
    (List.forall_mem_map.mpr fun p hp => (h p hp).canonical_plain)
    (List.forall_mem_map.mpr fun s hs => Step.part_plain (h' s hs)) heq
  have hsteps := congrArg (List.map PathPart.step) hparts
  simp only [List.map_map, Function.comp_def, Step.step_part, List.map_id'] at hsteps
  rw [← hsteps]
  exact List.map_congr_left fun p hp => (h p hp).step_canonical.symm

/-! ## Tokens -/

inductive IndexTokens : List Token → List String → Prop where
  | nil : IndexTokens [] []
  | cons {opening number closing : Token} {tokens : List Token} {numerals : List String} :
      opening.kind = .openBracket → number.kind = .number → closing.kind = .closeBracket →
      IndexTokens tokens numerals →
      IndexTokens (opening :: number :: closing :: tokens) (number.value :: numerals)

inductive MemberTokens : List Token → List PathPart → Prop where
  | nil : MemberTokens [] []
  | cons {dot name : Token} {indices tokens : List Token} {numerals : List String}
      {parts : List PathPart} :
      dot.kind = .dot → name.kind = .identifier → IndexTokens indices numerals →
      MemberTokens tokens parts →
      MemberTokens (dot :: name :: (indices ++ tokens)) (⟨name.value, numerals⟩ :: parts)

/-- The tokens write a path: a name, its indices in brackets, and the members below it. -/
inductive PathTokens : List Token → List PathPart → Prop where
  | mk {name : Token} {indices tokens : List Token} {numerals : List String}
      {parts : List PathPart} :
      name.kind = .identifier → IndexTokens indices numerals → MemberTokens tokens parts →
      PathTokens (name :: (indices ++ tokens)) (⟨name.value, numerals⟩ :: parts)

theorem PathTokens.ne_nil {tokens : List Token} {parts : List PathPart}
    (h : PathTokens tokens parts) : parts ≠ [] := by
  cases h
  simp

/-- The window with some more tokens in front. -/
def Window.prepend (tokens : List Token) (after : Window) : Window :=
  ⟨tokens ++ after.rest, after.ending⟩

theorem Index.text_read (opening number closing : Token) :
    Index.text ⟨opening, .read number, .read closing⟩ =
      "[" ++ Text.canonical number.value ++ "]" := by
  simp only [Index.text, Terminal.value?, Terminal.token?, Option.map_some, Text.canonical]
  cases Text.word? number.value <;> rfl

namespace Window

@[simp] theorem prepend_nil (after : Window) : prepend [] after = after := rfl

@[simp] theorem kind_prepend_cons (t : Token) (tokens : List Token) (after : Window) :
    (prepend (t :: tokens) after).kind = t.kind := rfl

@[simp] theorem ahead_prepend_cons (t : Token) (tokens : List Token) (after : Window) :
    (prepend (t :: tokens) after).ahead = t := rfl

@[simp] theorem advance_prepend_cons (t : Token) (tokens : List Token) (after : Window) :
    (prepend (t :: tokens) after).advance = prepend tokens after := rfl

theorem prepend_append (tokens tokens' : List Token) (after : Window) :
    prepend (tokens ++ tokens') after = prepend tokens (prepend tokens' after) := by
  simp [prepend]

theorem expect_prepend {t : Token} {k : TokenKind} (h : t.kind = k) (tokens : List Token)
    (after : Window) :
    (prepend (t :: tokens) after).expect k = (.read t, prepend tokens after) := by
  simp [expect, h]

variable {tokens : List Token} {after : Window} {parts : List PathPart} {steps : Nat}

theorem readIndices_prepend {numerals : List String} (h : IndexTokens tokens numerals)
    (hstop : after.kind ≠ .openBracket) (hsteps : tokens.length ≤ steps) :
    ∃ indices, readIndices steps (prepend tokens after) = (indices, after) ∧
      Designator.indicesText indices =
        String.join ((numerals.map Text.canonical).map fun index => "[" ++ index ++ "]") := by
  induction h generalizing steps with
  | nil =>
    refine ⟨[], ?_, rfl⟩
    cases steps <;> simp [readIndices, hstop]
  | @cons opening number closing tokens numerals hopening hnumber hclosing _ ih =>
    simp only [List.length_cons] at hsteps
    obtain ⟨steps, rfl⟩ := Nat.exists_eq_add_one_of_ne_zero (by omega : steps ≠ 0)
    obtain ⟨indices, hread, htext⟩ := ih (by omega : tokens.length ≤ steps)
    refine ⟨⟨opening, .read number, .read closing⟩ :: indices, ?_, ?_⟩
    · simp [readIndices, hopening, expect_prepend hnumber, expect_prepend hclosing, hread]
    · simp only [Designator.indicesText] at htext
      simp [Designator.indicesText, Index.text_read, htext]

theorem kind_prepend_members (h : MemberTokens tokens parts) (hstop : after.kind ≠ .openBracket) :
    (prepend tokens after).kind ≠ .openBracket := by
  cases h with
  | nil => exact hstop
  | cons hdot _ _ _ => simp [hdot]

theorem readMembers_prepend (h : MemberTokens tokens parts) (hbracket : after.kind ≠ .openBracket)
    (hdot : after.kind ≠ .dot) (hsteps : tokens.length ≤ steps) :
    ∃ members, readMembers steps (prepend tokens after) = (members, after) ∧
      Designator.membersText? members =
        some (String.join ((parts.map PathPart.canonical).map fun part => "." ++ part.text)) := by
  induction h generalizing steps with
  | nil =>
    refine ⟨[], ?_, rfl⟩
    cases steps <;> simp [readMembers, hdot]
  | @cons dot name indices tokens numerals parts hmark hname hindices hmembers ih =>
    simp only [List.length_cons, List.length_append] at hsteps
    obtain ⟨steps, rfl⟩ := Nat.exists_eq_add_one_of_ne_zero (by omega : steps ≠ 0)
    obtain ⟨found, hfound, hfoundText⟩ := readIndices_prepend hindices
      (kind_prepend_members hmembers hbracket) (by omega : indices.length ≤ steps)
    obtain ⟨members, hread, htext⟩ := ih (by omega : tokens.length ≤ steps)
    refine ⟨⟨dot, .read name, found⟩ :: members, ?_, ?_⟩
    · simp [readMembers, hmark, expect_prepend hname, prepend_append, hfound, hread]
    · simp [Designator.membersText?, Terminal.value?, Terminal.token?, htext, hfoundText,
        PathPart.canonical, PathPart.text, String.append_assoc]

/-- A written path is read as the designator with its composed name. -/
theorem readDesignator_prepend (h : PathTokens tokens parts) (hbracket : after.kind ≠ .openBracket)
    (hdot : after.kind ≠ .dot) (hsteps : tokens.length ≤ steps) :
    ∃ d, readDesignator steps (prepend tokens after) = (d, after) ∧
      d.name? = some (pathText (parts.map PathPart.canonical)) := by
  obtain @⟨name, indices, tokens, numerals, parts, hname, hindices, hmembers⟩ := h
  simp only [List.length_cons, List.length_append] at hsteps
  obtain ⟨found, hfound, hfoundText⟩ := readIndices_prepend hindices
    (kind_prepend_members hmembers hbracket) (by omega : indices.length ≤ steps)
  obtain ⟨members, hread, htext⟩ := readMembers_prepend hmembers hbracket hdot
    (by omega : tokens.length ≤ steps)
  refine ⟨⟨.read name, found, members⟩, ?_, ?_⟩
  · simp [readDesignator, expect_prepend hname, prepend_append, hfound, hread]
  · simp [Designator.name?, Terminal.value?, Terminal.token?, htext, hfoundText, pathText,
      PathPart.canonical, PathPart.text]

end Window

namespace Session

/-- What the session is going to read first is the path, with any numerals for its indices, and the
token behind it does not go on with a path. -/
inductive Faces (s : Session) : List Step → Prop where
  | mk {tokens : List Token} {parts : List PathPart} {after : Window}
      (hwindow : s.window = .prepend tokens after) (htokens : PathTokens tokens parts)
      (hwritten : ∀ p ∈ parts, p.Written) (hbracket : after.kind ≠ .openBracket)
      (hdot : after.kind ≠ .dot) : Faces s (parts.map PathPart.step)

variable {s : Session}

theorem designator_prepend {tokens : List Token} {after : Window} {parts : List PathPart}
    (hwindow : s.window = .prepend tokens after) (h : PathTokens tokens parts)
    (hbracket : after.kind ≠ .openBracket) (hdot : after.kind ≠ .dot) :
    s.designator.1 = some (pathText (parts.map PathPart.canonical)) := by
  have hsteps : tokens.length ≤ s.steps := by
    simp only [Session.steps, Window.budget, Window.size, hwindow, Window.prepend,
      List.length_append]
    omega
  obtain ⟨d, hread, hname⟩ := Window.readDesignator_prepend h hbracket hdot hsteps
  rw [← hwindow] at hread
  rw [← hname]
  simp only [designator, take, hread]
  rfl

/-- However its indices are written, a path is read as its composed name. -/
theorem Faces.designator_eq {steps : List Step} (h : s.Faces steps)
    (hbound : ∀ step ∈ steps, ∀ n ∈ step.indices, n < Text.wordBound) :
    s.designator.1 = some (pathName steps) := by
  obtain ⟨hwindow, htokens, hwritten, hbracket, hdot⟩ := h
  rw [designator_prepend hwindow htokens hbracket hdot, pathText_canonical hwritten hbound]

/-- No two paths are read as the same name, even if an index is too large for a word. -/
theorem Faces.designator_inj {steps : List Step} (h : s.Faces steps) :
    ∃ name, s.designator.1 = some name ∧ ∀ steps' : List Step, steps' ≠ [] →
      (∀ step ∈ steps', IsWord step.name) → pathName steps' = name → steps = steps' := by
  obtain ⟨hwindow, htokens, hwritten, hbracket, hdot⟩ := h
  refine ⟨_, designator_prepend hwindow htokens hbracket hdot, ?_⟩
  intro steps' hne hwords heq
  exact steps_of_pathText_eq htokens.ne_nil hne hwritten hwords heq.symm

end Session
end SlotLang
