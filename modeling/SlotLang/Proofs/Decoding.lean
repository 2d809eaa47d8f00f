import SlotLang.Code
import SlotLang.Proofs.Paths

/-!
# Reading a listing

A listing is printed without quotes: the parts of an instruction have blanks between them, instructions
have line breaks behind them, a label has a colon behind it, and a number and a name may stand in the
same place.  Still the instructions can be read off the text, as long as the names in them have neither
blanks nor line breaks, none that stands in the place of a number is a numeral, and no procedure has a
label like those that are drawn.
-/

namespace SlotLang

/-- The text has neither blanks nor line breaks. -/
def Unbroken (text : String) : Prop := ∀ c ∈ text.toList, c ≠ ' ' ∧ c ≠ '\n'

instance (text : String) : Decidable (Unbroken text) :=
  decidable_of_iff (text.toList.all fun c => c != ' ' && c != '\n') (by simp [Unbroken])

theorem Unbroken.append {first second : String} (hfirst : Unbroken first)
    (hsecond : Unbroken second) : Unbroken (first ++ second) := by
  intro c hc
  rw [String.toList_append, List.mem_append] at hc
  exact hc.elim (hfirst c) (hsecond c)

theorem unbroken_toString (n : Nat) : Unbroken (toString n) := by
  intro c hc
  have hdigit := Text.isDigit_of_mem_toString hc
  constructor
  · rintro rfl
    simp at hdigit
  · rintro rfl
    simp at hdigit

/-! ## The parts of an instruction -/

def Directive.words : Directive → List String
  | names count => [".names", toString count]
  | var ty name => [".var", toString ty.tag, name]
  | proc name => [".proc", name]
  | externalVar ty name => [".external", "var", toString ty.tag, name]
  | externalProc name => [".external", "proc", name]
  | externalConst ty name => [".external", "const", toString ty.tag, name]

def Op.words : Op → List String
  | const value => ["Const", toString value]
  | arith op => [op.text]
  | neg => ["Neg"]
  | compare op => [op.text]
  | load level offset => ["Load", toString level, toString offset]
  | loadGlobal address => ["LoadG", address.text]
  | store level offset => ["Sto", toString level, toString offset]
  | storeGlobal address => ["StoG", address.text]
  | enter size => ["Enter", toString size]
  | leave => ["Leave"]
  | ret => ["Ret"]
  | call level label => ["Call", toString level, label.text]
  | jump label => ["Jmp", label.text]
  | jumpUnless label => ["FJmp", label.text]
  | read => ["Read"]
  | write => ["Write"]
  | nop => ["Nop"]
  | directive d => d.words

def Instruction.words (i : Instruction) : List String :=
  match i.label with
  | some label => (label.text ++ ":") :: i.op.words
  | none => i.op.words

/-! ## Reading the parts -/

def readInteger (text : String) : Int :=
  match text.toList with
  | '-' :: digits => -(Text.decimalValue digits : Int)
  | digits => (Text.decimalValue digits : Int)

def readNumber (text : String) : Nat := Text.decimalValue text.toList

/-- A text that is like the label of a number is this label, and any other one is a name. -/
def Label.ofText (text : String) : Label :=
  let drawn := Label.fresh (Text.decimalValue (text.toList.drop 2))
  if drawn.text = text then drawn else .named text

def Address.ofText (text : String) : Address :=
  if toString (readNumber text) = text then .slot (readNumber text) else .name text

def Ty.ofTag? (text : String) : Option Ty := Ty.all.find? fun ty => toString ty.tag = text

/-- The operations that consist of one word. -/
def Op.single : List Op :=
  [arith .add, arith .sub, arith .mul, arith .div, neg, compare .equ, compare .lss, compare .gtr,
    compare .neq, compare .leq, compare .geq, leave, ret, read, write, nop]

def Directive.ofWords? : List String → Option Directive
  | [".names", count] => some (names (readNumber count))
  | [".var", tag, name] => (Ty.ofTag? tag).map fun ty => var ty name
  | [".proc", name] => some (proc name)
  | [".external", "var", tag, name] => (Ty.ofTag? tag).map fun ty => externalVar ty name
  | [".external", "proc", name] => some (externalProc name)
  | [".external", "const", tag, name] => (Ty.ofTag? tag).map fun ty => externalConst ty name
  | _ => none

def Op.ofWords? : List String → Option Op
  | [word] => single.find? fun op => op.words = [word]
  | ["Const", value] => some (const (readInteger value))
  | ["Load", level, offset] => some (load (readNumber level) (readNumber offset))
  | ["LoadG", address] => some (loadGlobal (.ofText address))
  | ["Sto", level, offset] => some (store (readNumber level) (readNumber offset))
  | ["StoG", address] => some (storeGlobal (.ofText address))
  | ["Enter", size] => some (enter (readNumber size))
  | ["Call", level, label] => some (call (readNumber level) (.ofText label))
  | ["Jmp", label] => some (jump (.ofText label))
  | ["FJmp", label] => some (jumpUnless (.ofText label))
  | words => (Directive.ofWords? words).map directive

/-- The part with a colon behind it is a label. -/
def Instruction.ofWords? : List String → Option Instruction
  | [] => none
  | first :: others =>
    if first.toList.getLast? = some ':' then
      (Op.ofWords? others).map (labelled (.ofText (String.ofList first.toList.dropLast)))
    else (Op.ofWords? (first :: others)).map plain

/-- The instructions of a listing, one on each line. -/
def readListing (text : String) : Option (List Instruction) :=
  (text.toList.splitOn '\n').dropLast.mapM fun line =>
    Instruction.ofWords? ((line.splitOn ' ').map String.ofList)

/-! ## What can be read -/

def Label.Legible : Label → Prop
  | fresh _ => True
  | named text => Unbroken text ∧ ∀ n, text ≠ (fresh n).text

def Address.Legible : Address → Prop
  | slot _ => True
  | name text => Unbroken text ∧ ∀ n : Nat, text ≠ toString n

def Directive.Legible : Directive → Prop
  | names _ => True
  | var _ name | proc name | externalVar _ name | externalProc name | externalConst _ name =>
    Unbroken name

def Op.Legible : Op → Prop
  | loadGlobal address | storeGlobal address => address.Legible
  | call _ label | jump label | jumpUnless label => label.Legible
  | directive d => d.Legible
  | _ => True

/-- The instruction is not taken for another one or for several ones when it is read. -/
structure Instruction.Legible (i : Instruction) : Prop where
  label : ∀ label ∈ i.label, label.Legible
  op : i.op.Legible

theorem readNumber_toString (n : Nat) : readNumber (toString n) = n := Text.decimalValue_toString n

theorem readInteger_toString (value : Int) : readInteger (toString value) = value := by
  cases value with
  | ofNat n =>
    have hvalue := Text.decimalValue_toString n
    have htext : toString (Int.ofNat n) = toString n := rfl
    rw [htext, readInteger]
    split
    next digits hminus =>
      have hdigit := Text.isDigit_of_mem_toString (n := n) (c := '-') (by rw [hminus]; simp)
      cases hdigit
    next => rw [hvalue]; rfl
  | negSucc n =>
    have htext : (toString (Int.negSucc n)).toList = '-' :: (toString (n + 1)).toList :=
      String.toList_append
    have hvalue := Text.decimalValue_toString (n + 1)
    rw [readInteger, htext]
    show -(Text.decimalValue (toString (n + 1)).toList : Int) = Int.negSucc n
    rw [hvalue]
    rfl

theorem Label.ofText_text {label : Label} (h : label.Legible) : ofText label.text = label := by
  cases label with
  | fresh n =>
    have hdigits : (fresh n).text.toList.drop 2 = (toString n).toList := by
      rw [text, String.toList_append]
      rfl
    rw [ofText, hdigits, Text.decimalValue_toString]
    exact if_pos rfl
  | named text => exact if_neg (h.2 _).symm

theorem Address.ofText_text {address : Address} (h : address.Legible) :
    ofText address.text = address := by
  cases address with
  | slot offset =>
    rw [text, ofText, readNumber_toString]
    exact if_pos rfl
  | name text => exact if_neg (h.2 _).symm

theorem Ty.ofTag?_tag (ty : Ty) : ofTag? (toString ty.tag) = some ty := by
  cases ty <;> decide +kernel

theorem Directive.ofWords?_words (d : Directive) : ofWords? d.words = some d := by
  cases d with
  | names count => exact congrArg (some ∘ names) (readNumber_toString count)
  | var ty name => exact congrArg (Option.map fun ty => var ty name) ty.ofTag?_tag
  | proc name => rfl
  | externalVar ty name => exact congrArg (Option.map fun ty => externalVar ty name) ty.ofTag?_tag
  | externalProc name => rfl
  | externalConst ty name => exact congrArg (Option.map fun ty => externalConst ty name) ty.ofTag?_tag

theorem Op.ofWords?_words {op : Op} (h : op.Legible) : ofWords? op.words = some op := by
  cases op with
  | const value => exact congrArg (some ∘ const) (readInteger_toString value)
  | arith op => cases op <;> rfl
  | compare op => cases op <;> rfl
  | load level offset =>
    exact congrArg₂ (fun l o => some (load l o)) (readNumber_toString level) (readNumber_toString offset)
  | directive d =>
    have hread := congrArg (Option.map directive) d.ofWords?_words
    cases d <;> exact hread
  | loadGlobal address => exact congrArg (some ∘ loadGlobal) (Address.ofText_text h)
  | storeGlobal address => exact congrArg (some ∘ storeGlobal) (Address.ofText_text h)
  | store level offset =>
    exact congrArg₂ (fun l o => some (store l o)) (readNumber_toString level) (readNumber_toString offset)
  | enter size => exact congrArg (some ∘ enter) (readNumber_toString size)
  | call level label =>
    exact congrArg₂ (fun l o => some (call l o)) (readNumber_toString level) (Label.ofText_text h)
  | jump label => exact congrArg (some ∘ jump) (Label.ofText_text h)
  | jumpUnless label => exact congrArg (some ∘ jumpUnless) (Label.ofText_text h)
  | neg | leave | ret | read | write | nop => rfl

/-! ## Lines -/

/-- The text consists of the words, with blanks between them. -/
def Separates (text : String) (words : List String) : Prop :=
  text.toList = [' '].intercalate (words.map String.toList)

theorem separates_word (word : String) : Separates word [word] := by simp [Separates]

theorem Separates.concat {text : String} {first : String} {others : List String}
    (h : Separates text (first :: others)) (word : String) :
    Separates (text ++ " " ++ word) (first :: others ++ [word]) := by
  rw [Separates, List.map_cons, intercalate_singleton_cons] at h
  rw [Separates, List.cons_append, List.map_cons, intercalate_singleton_cons, List.map_append,
    List.flatMap_append, String.toList_append, String.toList_append, h]
  simp

theorem Separates.cons {text : String} {words : List String} (h : Separates text words)
    (hne : words ≠ []) (word : String) : Separates (word ++ " " ++ text) (word :: words) := by
  obtain ⟨first, others, rfl⟩ := List.exists_cons_of_ne_nil hne
  rw [Separates, List.map_cons, List.map_cons, List.intercalate_cons_cons, String.toList_append,
    String.toList_append, h]
  rfl

theorem Directive.text_separates (d : Directive) : Separates d.text d.words := by
  cases d with
  | names count => exact (separates_word ".names").concat (toString count)
  | var ty name => exact ((separates_word ".var").concat (toString ty.tag)).concat name
  | proc name => exact (separates_word ".proc").concat name
  | externalVar ty name =>
    exact (((separates_word ".external").concat "var").concat (toString ty.tag)).concat name
  | externalProc name => exact ((separates_word ".external").concat "proc").concat name
  | externalConst ty name =>
    exact (((separates_word ".external").concat "const").concat (toString ty.tag)).concat name

theorem Op.text_separates (op : Op) : Separates op.text op.words := by
  cases op with
  | const value => exact (separates_word "Const").concat (toString value)
  | arith op => exact separates_word op.text
  | compare op => exact separates_word op.text
  | load level offset =>
    exact ((separates_word "Load").concat (toString level)).concat (toString offset)
  | loadGlobal address => exact (separates_word "LoadG").concat address.text
  | store level offset =>
    exact ((separates_word "Sto").concat (toString level)).concat (toString offset)
  | storeGlobal address => exact (separates_word "StoG").concat address.text
  | enter size => exact (separates_word "Enter").concat (toString size)
  | call level label => exact ((separates_word "Call").concat (toString level)).concat label.text
  | jump label => exact (separates_word "Jmp").concat label.text
  | jumpUnless label => exact (separates_word "FJmp").concat label.text
  | directive d => exact d.text_separates
  | neg | leave | ret | read | write | nop => exact separates_word _

/-- An operation does not start like a label. -/
theorem Op.exists_words (op : Op) :
    ∃ first others, op.words = first :: others ∧ first.toList.getLast? ≠ some ':' := by
  cases op with
  | arith op => cases op <;> exact ⟨_, _, rfl, by decide⟩
  | compare op => cases op <;> exact ⟨_, _, rfl, by decide⟩
  | directive d => cases d <;> exact ⟨_, _, rfl, by decide⟩
  | _ => exact ⟨_, _, rfl, by decide⟩

theorem Instruction.text_separates (i : Instruction) : Separates i.text i.words := by
  obtain ⟨_ | label, op⟩ := i
  · exact op.text_separates
  · have hlabel : label.text ++ ":" ++ " " = label.text ++ ": " := String.append_assoc ..
    obtain ⟨first, others, hwords, -⟩ := op.exists_words
    have hseparates := op.text_separates.cons (by simp [hwords]) (label.text ++ ":")
    rwa [hlabel] at hseparates

theorem Instruction.ofWords?_words {i : Instruction} (h : i.Legible) :
    ofWords? i.words = some i := by
  obtain ⟨_ | label, op⟩ := i
  · obtain ⟨first, others, hwords, hcolon⟩ := op.exists_words
    have hread := Op.ofWords?_words h.op
    rw [hwords] at hread
    rw [words]
    dsimp only
    rw [hwords, ofWords?, if_neg hcolon, hread]
    rfl
  · have hcolon : (label.text ++ ":").toList.getLast? = some ':' := by simp
    have hlabel : String.ofList (label.text ++ ":").toList.dropLast = label.text := by simp
    rw [words]
    dsimp only
    rw [ofWords?, if_pos hcolon, hlabel, Label.ofText_text (h.label label rfl),
      Op.ofWords?_words h.op]
    rfl

/-! ## Splitting the text -/

theorem unbroken_toString_int (value : Int) : Unbroken (toString value) := by
  cases value with
  | ofNat n => exact unbroken_toString n
  | negSucc n =>
    have hsign : Unbroken "-" := by decide
    exact hsign.append (unbroken_toString (n + 1))

theorem Label.Legible.unbroken {label : Label} (h : label.Legible) : Unbroken label.text := by
  cases label with
  | fresh n => exact Unbroken.append (by decide) (unbroken_toString n)
  | named text => exact h.1

theorem Address.Legible.unbroken {address : Address} (h : address.Legible) :
    Unbroken address.text := by
  cases address with
  | slot offset => exact unbroken_toString offset
  | name text => exact h.1

def AllUnbroken (words : List String) : Prop := ∀ word ∈ words, Unbroken word

theorem AllUnbroken.nil : AllUnbroken [] := by simp [AllUnbroken]

theorem AllUnbroken.cons {word : String} {words : List String} (hword : Unbroken word)
    (hwords : AllUnbroken words) : AllUnbroken (word :: words) :=
  List.forall_mem_cons.mpr ⟨hword, hwords⟩

theorem AllUnbroken.single {word : String} (h : Unbroken word) : AllUnbroken [word] :=
  .cons h .nil

theorem Directive.Legible.words_unbroken {d : Directive} (h : d.Legible) :
    AllUnbroken d.words := by
  cases d with
  | names count => exact .cons (by decide) (.single (unbroken_toString count))
  | var ty name => exact .cons (by decide) (.cons (unbroken_toString ty.tag) (.single h))
  | proc name => exact .cons (by decide) (.single h)
  | externalVar ty name | externalConst ty name =>
    exact .cons (by decide) (.cons (by decide) (.cons (unbroken_toString ty.tag) (.single h)))
  | externalProc name => exact .cons (by decide) (.cons (by decide) (.single h))

theorem Op.Legible.words_unbroken {op : Op} (h : op.Legible) : AllUnbroken op.words := by
  cases op with
  | const value => exact .cons (by decide) (.single (unbroken_toString_int value))
  | arith op => cases op <;> exact .single (by decide)
  | compare op => cases op <;> exact .single (by decide)
  | load level offset | store level offset =>
    exact .cons (by decide) (.cons (unbroken_toString level) (.single (unbroken_toString offset)))
  | loadGlobal address | storeGlobal address =>
    exact .cons (by decide) (.single (Address.Legible.unbroken h))
  | enter size => exact .cons (by decide) (.single (unbroken_toString size))
  | call level label =>
    exact .cons (by decide) (.cons (unbroken_toString level) (.single (Label.Legible.unbroken h)))
  | jump label | jumpUnless label =>
    exact .cons (by decide) (.single (Label.Legible.unbroken h))
  | directive d => exact Directive.Legible.words_unbroken h
  | neg | leave | ret | read | write | nop => exact .single (by decide)

theorem Instruction.Legible.words_unbroken {i : Instruction} (h : i.Legible) :
    AllUnbroken i.words := by
  obtain ⟨_ | label, op⟩ := i
  · exact h.op.words_unbroken
  · exact .cons ((h.label label rfl).unbroken.append (by decide)) h.op.words_unbroken

theorem Instruction.words_ne_nil (i : Instruction) : i.words ≠ [] := by
  obtain ⟨_ | label, op⟩ := i
  · obtain ⟨first, others, hwords, -⟩ := op.exists_words
    simp [words, hwords]
  · exact List.cons_ne_nil _ _

/-- The words of an instruction are what blanks separate. -/
theorem Instruction.Legible.splitOn_text {i : Instruction} (h : i.Legible) :
    (i.text.toList.splitOn ' ').map String.ofList = i.words := by
  have hblank : ∀ chars ∈ i.words.map String.toList, ' ' ∉ chars := by
    intro chars hchars
    obtain ⟨word, hword, rfl⟩ := List.mem_map.mp hchars
    exact fun hmem => (h.words_unbroken word hword ' ' hmem).1 rfl
  rw [i.text_separates, List.splitOn_intercalate ' ' hblank (by simpa using i.words_ne_nil)]
  simp [Function.comp_def]

theorem Separates.newline_not_mem {text : String} {words : List String} (h : Separates text words)
    (hwords : AllUnbroken words) (hne : words ≠ []) : '\n' ∉ text.toList := by
  obtain ⟨first, others, rfl⟩ := List.exists_cons_of_ne_nil hne
  rw [Separates, List.map_cons, intercalate_singleton_cons] at h
  intro hmem
  rw [h, List.mem_append, List.mem_flatMap] at hmem
  rcases hmem with hmem | ⟨chars, hchars, hmem⟩
  · exact (hwords first List.mem_cons_self _ hmem).2 rfl
  · obtain ⟨word, hword, rfl⟩ := List.mem_map.mp hchars
    have hmem : '\n' ∈ word.toList := by simpa using hmem
    exact (hwords word (List.mem_cons_of_mem _ hword) _ hmem).2 rfl

theorem toList_renderListing (code : List Instruction) :
    (renderListing code).toList = ['\n'].intercalate (code.map (·.text.toList) ++ [[]]) := by
  induction code with
  | nil => rfl
  | cons i code ih =>
    have hcons : (renderListing (i :: code)).toList =
        i.text.toList ++ ['\n'] ++ (renderListing code).toList := by
      simp [renderListing]
    rw [hcons, ih, List.map_cons, List.cons_append, List.intercalate_cons_of_ne_nil (by simp)]

/-- The lines of a listing are what line breaks separate.  There is nothing behind the last one. -/
theorem splitOn_renderListing {code : List Instruction} (h : ∀ i ∈ code, i.Legible) :
    (renderListing code).toList.splitOn '\n' = code.map (·.text.toList) ++ [[]] := by
  rw [toList_renderListing, List.splitOn_intercalate '\n' ?_ (by simp)]
  intro chars hchars
  rcases List.mem_append.mp hchars with hchars | hchars
  · obtain ⟨i, hi, rfl⟩ := List.mem_map.mp hchars
    exact i.text_separates.newline_not_mem (h i hi).words_unbroken i.words_ne_nil
  · simp [List.mem_singleton.mp hchars]

/-- Reading gives back what was printed. -/
theorem readListing_renderListing {code : List Instruction} (h : ∀ i ∈ code, i.Legible) :
    readListing (renderListing code) = some code := by
  rw [readListing, splitOn_renderListing h, List.dropLast_concat]
  induction code with
  | nil => rfl
  | cons i code ih =>
    obtain ⟨hi, hcode⟩ := List.forall_mem_cons.mp h
    rw [List.map_cons, List.mapM_cons, hi.splitOn_text, Instruction.ofWords?_words hi, ih hcode]
    rfl

end SlotLang
