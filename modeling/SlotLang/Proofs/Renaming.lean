import Mathlib.Data.List.SplitBy
import SlotLang.Proofs.Scanning
import SlotLang.Symbol.ScopeStack
import SlotLang.Text.Numeral

/-!
# Renaming texts

A renaming maps names to names, and different names to different ones.  It acts on every text: the
text is split into words and the characters between them, and every word that is a name is replaced.
So it acts on composed names too, on the labels of procedures and on the names of elements and
members, since their parts are separated by characters that no word contains.

A word that is no name stays as it is, and no name can become such a word.  Therefore different texts
are still different when they have been renamed.
-/

namespace SlotLang

open LexemeRule (isWordStart isWordPart)

instance : DecidablePred TokenKind.identifier.Spells := fun text =>
  decidable_of_iff (IsWord text ∧ ∀ kind ∈ TokenKind.all, kind.spelling? ≠ some text)
    (and_congr_right fun _ => ⟨fun h kind => h kind kind.mem_all, fun h kind _ => h kind⟩)

structure Renaming where
  name : String → String
  spells : ∀ {x : String}, TokenKind.identifier.Spells x → TokenKind.identifier.Spells (name x)
  injective : ∀ {x y : String}, TokenKind.identifier.Spells x → TokenKind.identifier.Spells y →
    name x = name y → x = y

namespace Renaming

/-- Two names take each other's place. -/
def exchange {a b : String} (ha : TokenKind.identifier.Spells a)
    (hb : TokenKind.identifier.Spells b) : Renaming where
  name x := if x = a then b else if x = b then a else x
  spells hx := by
    split
    · exact hb
    · split
      · exact ha
      · exact hx
  injective _ _ h := by grind

variable (r : Renaming)

/-- Two neighbouring characters belong to one word. -/
def joins (c d : Char) : Bool := isWordPart c && isWordPart d

/-- What becomes of a word, or of a character that is in no word. -/
def run (chars : List Char) : List Char :=
  if TokenKind.identifier.Spells (String.ofList chars) then (r.name (String.ofList chars)).toList
  else chars

def chars (s : List Char) : List Char := (s.splitBy joins).flatMap r.run

/-- The text with all names in it replaced. -/
def text (s : String) : String := String.ofList (r.chars s.toList)

/-! ## Runs -/

/-- One character that is in no word, or a word. -/
def IsRun (chars : List Char) : Prop :=
  (∃ c, chars = [c] ∧ isWordPart c = false) ∨ (chars ≠ [] ∧ ∀ c ∈ chars, isWordPart c = true)

theorem isRun_of_mem {s chars : List Char} (h : chars ∈ s.splitBy joins) : IsRun chars := by
  have hne := List.ne_nil_of_mem_splitBy h
  have hchain := List.isChain_of_mem_splitBy h
  obtain ⟨c, more, rfl⟩ := List.exists_cons_of_ne_nil hne
  by_cases hc : isWordPart c = true
  · right
    refine ⟨hne, ?_⟩
    clear h hne
    induction more generalizing c with
    | nil => simpa using hc
    | cons d more ih =>
      obtain ⟨hjoins, hmore⟩ := List.isChain_cons_cons.mp hchain
      have hd : isWordPart d = true := (Bool.and_eq_true_iff.mp hjoins).2
      exact List.forall_mem_cons.mpr ⟨hc, ih d hmore hd⟩
  · left
    cases more with
    | nil => exact ⟨c, rfl, by simpa using hc⟩
    | cons d more =>
      obtain ⟨hjoins, -⟩ := List.isChain_cons_cons.mp hchain
      exact absurd (Bool.and_eq_true_iff.mp hjoins).1 hc

theorem not_spells_of_not_isWordPart {c : Char} {more : List Char} (hc : isWordPart c = false) :
    ¬TokenKind.identifier.Spells (String.ofList (c :: more)) := by
  rintro ⟨⟨d, rest, htext, hd, -⟩, -⟩
  rw [String.toList_ofList] at htext
  obtain ⟨rfl, -⟩ := List.cons.inj htext
  rw [LexemeRule.isWordPart_of_isWordStart hd] at hc
  contradiction

theorem isWordPart_of_spells {x : String} (h : TokenKind.identifier.Spells x) :
    x.toList ≠ [] ∧ ∀ c ∈ x.toList, isWordPart c = true := by
  obtain ⟨⟨c, rest, htext, hstart, hrest⟩, -⟩ := h
  rw [htext]
  exact ⟨by simp, List.forall_mem_cons.mpr
    ⟨LexemeRule.isWordPart_of_isWordStart hstart, hrest⟩⟩

theorem run_of_not_isWordPart {c : Char} {more : List Char} (hc : isWordPart c = false) :
    r.run (c :: more) = c :: more :=
  if_neg (not_spells_of_not_isWordPart hc)

/-- Words become words, and the characters between them stay as they are. -/
theorem isRun_run {chars : List Char} (h : IsRun chars) :
    IsRun (r.run chars) ∧ (r.run chars).all isWordPart = chars.all isWordPart := by
  rcases h with ⟨c, rfl, hc⟩ | ⟨hne, hall⟩
  · rw [r.run_of_not_isWordPart hc]
    exact ⟨.inl ⟨c, rfl, hc⟩, rfl⟩
  · have hword : r.run chars ≠ [] ∧ ∀ c ∈ r.run chars, isWordPart c = true := by
      by_cases hname : TokenKind.identifier.Spells (String.ofList chars)
      · rw [run, if_pos hname]
        exact isWordPart_of_spells (r.spells hname)
      · rw [run, if_neg hname]
        exact ⟨hne, hall⟩
    exact ⟨.inr hword, by rw [List.all_eq_true.mpr hword.2, List.all_eq_true.mpr hall]⟩

theorem IsRun.isWordPart_head {chars : List Char} (h : IsRun chars) (hne : chars ≠ []) :
    isWordPart (chars.head hne) = chars.all isWordPart := by
  rcases h with ⟨c, rfl, hc⟩ | ⟨-, hall⟩
  · simp
  · rw [hall _ (List.head_mem hne), List.all_eq_true.mpr hall]

theorem IsRun.isWordPart_getLast {chars : List Char} (h : IsRun chars) (hne : chars ≠ []) :
    isWordPart (chars.getLast hne) = chars.all isWordPart := by
  rcases h with ⟨c, rfl, hc⟩ | ⟨-, hall⟩
  · simp
  · rw [hall _ (List.getLast_mem hne), List.all_eq_true.mpr hall]

theorem IsRun.ne_nil {chars : List Char} (h : IsRun chars) : chars ≠ [] := by
  rcases h with ⟨c, rfl, -⟩ | ⟨hne, -⟩
  · simp
  · exact hne

theorem IsRun.isChain {chars : List Char} (h : IsRun chars) :
    chars.IsChain fun c d => joins c d := by
  rcases h with ⟨c, rfl, -⟩ | ⟨-, hall⟩
  · simp
  · refine List.isChain_iff_getElem.mpr fun i hi => ?_
    simp [joins, hall _ (List.getElem_mem _)]

/-- The runs of a renamed text are the renamed runs of the text. -/
theorem splitBy_chars (s : List Char) :
    (r.chars s).splitBy joins = (s.splitBy joins).map r.run := by
  rw [List.splitBy_eq_iff]
  have hruns : ∀ chars ∈ s.splitBy joins, IsRun (r.run chars) :=
    fun chars hmem => (r.isRun_run (isRun_of_mem hmem)).1
  refine ⟨List.flatMap_def .., ?_, ?_, ?_⟩
  · intro hnil
    obtain ⟨chars, hmem, hchars⟩ := List.mem_map.mp hnil
    exact (hruns chars hmem).ne_nil hchars
  · intro chars hmem
    obtain ⟨before, hbefore, rfl⟩ := List.mem_map.mp hmem
    exact (hruns before hbefore).isChain
  · rw [List.isChain_map]
    refine List.IsChain.imp_of_mem_imp ?_ (List.isChain_getLast_head_splitBy joins s)
    rintro first second hfirst hsecond ⟨hne₁, hne₂, hjoins⟩
    have hrun₁ := r.isRun_run (isRun_of_mem hfirst)
    have hrun₂ := r.isRun_run (isRun_of_mem hsecond)
    refine ⟨hrun₁.1.ne_nil, hrun₂.1.ne_nil, ?_⟩
    rw [joins, hrun₁.1.isWordPart_getLast, hrun₂.1.isWordPart_head, hrun₁.2, hrun₂.2,
      ← (isRun_of_mem hfirst).isWordPart_getLast hne₁, ← (isRun_of_mem hsecond).isWordPart_head hne₂]
    exact hjoins

/-! ## Different texts stay different -/

theorem run_injective : Function.Injective r.run := by
  intro first second heq
  unfold run at heq
  split at heq
  next hfirst =>
    split at heq
    next hsecond =>
      have hname := r.injective hfirst hsecond (String.toList_inj.mp heq)
      simpa using congrArg String.toList hname
    next hsecond =>
      -- A name would have become what is no name.
      have hspells := r.spells hfirst
      rw [← String.ofList_toList (s := r.name _), heq] at hspells
      exact absurd hspells hsecond
  next hfirst =>
    split at heq
    next hsecond =>
      have hspells := r.spells hsecond
      rw [← String.ofList_toList (s := r.name _), ← heq] at hspells
      exact absurd hspells hfirst
    next => exact heq

theorem chars_injective : Function.Injective r.chars := by
  intro s t heq
  have hruns := congrArg (List.splitBy joins) heq
  rw [splitBy_chars, splitBy_chars] at hruns
  have hsame := List.map_injective_iff.mpr r.run_injective hruns
  rw [← List.flatten_splitBy joins s, hsame, List.flatten_splitBy]

theorem text_injective : Function.Injective r.text := by
  intro s t heq
  have hchars : r.chars s.toList = r.chars t.toList := String.ofList_injective heq
  exact String.toList_inj.mp (r.chars_injective hchars)

@[simp] theorem text_inj {s t : String} : r.text s = r.text t ↔ s = t := r.text_injective.eq_iff

/-! ## Composed texts -/

@[simp] theorem toList_text (s : String) : (r.text s).toList = r.chars s.toList := by
  simp [text]

@[simp] theorem chars_nil : r.chars [] = [] := rfl

/-- A text can be taken apart in front of a character that is in no word. -/
theorem chars_append {s t : List Char} (h : ∀ c ∈ t.head?, isWordPart c = false) :
    r.chars (s ++ t) = r.chars s ++ r.chars t := by
  rw [chars, List.splitBy_append, List.flatMap_append]
  · rfl
  · intro c _ d hd
    simp [joins, h d hd]

theorem chars_cons {c : Char} (hc : isWordPart c = false) (s : List Char) :
    r.chars (c :: s) = c :: r.chars s := by
  have hsplit := List.splitBy_append (r := joins) (l := [c]) (m := s) (by simp [joins, hc])
  have hone : [c].splitBy joins = [[c]] := List.splitBy_of_isChain (by simp) (by simp)
  rw [hone, List.singleton_append, List.singleton_append] at hsplit
  rw [chars, hsplit, List.flatMap_cons, r.run_of_not_isWordPart hc]
  rfl

/-- A text without letters has no names in it. -/
theorem chars_of_no_letter {s : List Char} (h : ∀ c ∈ s, isWordStart c = false) : r.chars s = s := by
  have hruns : ∀ chars ∈ s.splitBy joins, r.run chars = id chars := by
    intro chars hmem
    refine if_neg ?_
    rintro ⟨⟨c, rest, htext, hstart, -⟩, -⟩
    rw [String.toList_ofList] at htext
    have hc : c ∈ s := by
      rw [← List.flatten_splitBy joins s]
      exact List.mem_flatten.mpr ⟨chars, hmem, by simp [htext]⟩
    rw [h c hc] at hstart
    contradiction
  rw [chars, List.flatMap_congr hruns, List.flatMap_id, List.flatten_splitBy]

theorem chars_of_isWordPart {s : List Char} (hne : s ≠ []) (h : ∀ c ∈ s, isWordPart c = true) :
    r.chars s = r.run s := by
  rw [chars, List.splitBy_of_isChain hne (IsRun.isChain (.inr ⟨hne, h⟩))]
  simp

theorem text_of_spells {x : String} (h : TokenKind.identifier.Spells x) : r.text x = r.name x := by
  obtain ⟨hne, hall⟩ := isWordPart_of_spells h
  have hname : TokenKind.identifier.Spells (String.ofList x.toList) := by simpa using h
  rw [text, r.chars_of_isWordPart hne hall, run, if_pos hname]
  simp

theorem text_append {s t : String} (h : ∀ c ∈ t.toList.head?, isWordPart c = false) :
    r.text (s ++ t) = r.text s ++ r.text t := by
  apply String.toList_inj.mp
  simp [r.chars_append h]

theorem text_dot (s : String) : r.text ("." ++ s) = "." ++ r.text s := by
  apply String.toList_inj.mp
  simp [r.chars_cons (c := '.') (by decide)]

theorem text_brackets (s : String) : r.text ("[" ++ s ++ "]") = "[" ++ r.text s ++ "]" := by
  apply String.toList_inj.mp
  have hbracket : ∀ c ∈ [']'].head?, isWordPart c = false := by
    simp only [List.head?_cons, Option.mem_some_iff, forall_eq']
    decide
  have hclose : r.chars (s.toList ++ [']']) = r.chars s.toList ++ [']'] := by
    rw [r.chars_append hbracket, r.chars_cons (by decide), chars_nil]
  simp [r.chars_cons (c := '[') (by decide), hclose]

theorem text_digits {s : String} (h : ∀ c ∈ s.toList, c.isDigit = true) : r.text s = s := by
  apply String.toList_inj.mp
  rw [toList_text]
  refine r.chars_of_no_letter fun c hc => ?_
  rw [Bool.eq_false_iff]
  intro hstart
  simpa [h c hc] using LexemeRule.isDigit_of_isWordStart hstart

theorem text_toString (n : Nat) : r.text (toString n) = toString n := by
  refine r.text_digits fun c hc => ?_
  have hmem : c ∈ Nat.toDigits 10 n := by rwa [← Nat.toList_repr]
  exact Nat.isDigit_of_mem_toDigits (by omega) (by omega) hmem

theorem text_joinNames (names : List String) :
    r.text (ScopeStack.joinNames names) = ScopeStack.joinNames (names.map r.text) := by
  unfold ScopeStack.joinNames
  induction names with
  | nil => rfl
  | cons first names ih =>
    cases names with
    | nil => simp
    | cons second names =>
      have hlabel : ∀ t : String, r.text ("$" ++ t) = "$" ++ r.text t := by
        intro t
        apply String.toList_inj.mp
        simp [r.chars_cons (c := '$') (by decide)]
      have hne : second :: names ≠ [] := List.cons_ne_nil _ _
      have hmark : ∀ c ∈ ("$" ++ "$".intercalate (second :: names)).toList.head?,
          isWordPart c = false := by
        simp
        decide
      rw [List.map_cons, String.intercalate_cons_of_ne_nil hne,
        String.intercalate_cons_of_ne_nil (List.map_eq_nil_iff.not.mpr hne), ← ih,
        String.append_assoc, String.append_assoc, r.text_append hmark, hlabel]

/-! ## Numerals -/

/-- A renamed text has letters if the text has. -/
theorem exists_letter_chars {s : List Char} {c : Char} (hc : c ∈ s) (hstart : isWordStart c = true) :
    ∃ d ∈ r.chars s, isWordStart d = true := by
  rw [← List.flatten_splitBy joins s] at hc
  obtain ⟨chars, hchars, hmem⟩ := List.mem_flatten.mp hc
  suffices h : ∃ d ∈ r.run chars, isWordStart d = true by
    obtain ⟨d, hd, hdstart⟩ := h
    exact ⟨d, List.mem_flatMap.mpr ⟨chars, hchars, hd⟩, hdstart⟩
  by_cases hname : TokenKind.identifier.Spells (String.ofList chars)
  · obtain ⟨⟨d, rest, htext, hd, -⟩, -⟩ := r.spells hname
    exact ⟨d, by simp [run, hname, htext], hd⟩
  · exact ⟨c, by rwa [run, if_neg hname], hstart⟩

/-- What reads only texts without letters does not notice a renaming. -/
theorem read_text {α : Type} {read : String → Option α}
    (hread : ∀ s a, read s = some a → ∀ c ∈ s.toList, isWordStart c = false) (s : String) :
    read (r.text s) = read s := by
  by_cases hletter : ∃ c ∈ s.toList, isWordStart c = true
  · have hnone : ∀ t : String, (∃ c ∈ t.toList, isWordStart c = true) → read t = none := by
      rintro t ⟨c, hc, hstart⟩
      cases h : read t with
      | none => rfl
      | some a => simp [hread t a h c hc] at hstart
    obtain ⟨c, hc, hstart⟩ := hletter
    rw [hnone s ⟨c, hc, hstart⟩, hnone (r.text s) (by simpa using r.exists_letter_chars hc hstart)]
  · have hchars := r.chars_of_no_letter (s := s.toList) (by simpa using hletter)
    rw [text, hchars, String.ofList_toList]

theorem no_letter_of_digits? {s : List Char} {n : Nat} (h : Text.digits? s = some n) :
    ∀ c ∈ s, isWordStart c = false := by
  unfold Text.digits? at h
  split at h
  next hdigits =>
    intro c hc
    rw [Bool.eq_false_iff]
    intro hstart
    have hdigit := List.all_eq_true.mp hdigits.2 c hc
    rw [LexemeRule.isDigit_of_isWordStart hstart] at hdigit
    contradiction
  next => simp at h

theorem word?_text (s : String) : Text.word? (r.text s) = Text.word? s := by
  refine r.read_text ?_ s
  intro s n h
  unfold Text.word? at h
  dsimp only at h
  split at h
  next digits htext =>
    obtain ⟨value, hvalue, -⟩ := Option.bind_eq_some_iff.mp h
    rw [htext]
    exact List.forall_mem_cons.mpr ⟨by decide, no_letter_of_digits? hvalue⟩
  next =>
    obtain ⟨value, hvalue, -⟩ := Option.bind_eq_some_iff.mp h
    exact no_letter_of_digits? hvalue

theorem integer?_text (s : String) : Text.integer? (r.text s) = Text.integer? s := by
  refine r.read_text ?_ s
  intro s n h
  have hpositive : ∀ digits, Text.integer?.positive? digits = some n →
      ∀ c ∈ digits, isWordStart c = false := by
    intro digits hdigits
    obtain ⟨value, hvalue, -⟩ := Option.bind_eq_some_iff.mp hdigits
    exact no_letter_of_digits? hvalue
  unfold Text.integer? at h
  split at h
  next digits htext =>
    obtain ⟨value, hvalue, -⟩ := Option.bind_eq_some_iff.mp h
    rw [htext]
    exact List.forall_mem_cons.mpr ⟨by decide, no_letter_of_digits? hvalue⟩
  next digits htext =>
    rw [htext]
    exact List.forall_mem_cons.mpr ⟨by decide, hpositive digits h⟩
  next => exact hpositive _ h

end Renaming
end SlotLang
