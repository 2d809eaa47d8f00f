import SlotLang.Token

/-!
# The grammar

The grammar of the language in extended Backus-Naur form, over kinds of tokens, and the words that
derive from its phrases.  Nothing here knows how a text is read.

`Spans p u r` is the same for a reader's purposes: the word that stands in front of `r` in `u` derives
from the phrase `p`.  A sequence of phrases then leads from one rest to the next, and words are never
put together.
-/

namespace SlotLang

inductive Rule where
  | program
  | const
  | vars
  | struct
  | procedure
  | external
  | statement
  | scalar
  | declarator
  | designator
  | expression
  | factor
  | operator
  deriving DecidableEq, Repr

inductive Phrase where
  | token (kind : TokenKind)
  | rule (r : Rule)
  | sequence (parts : List Phrase)
  | choice (options : List Phrase)
  | repetition (body : Phrase)

namespace Phrase

instance : Coe TokenKind Phrase := ⟨token⟩

instance : Coe Rule Phrase := ⟨rule⟩

def optional (p : Phrase) : Phrase := choice [p, sequence []]

/-- One or more phrases with commas between them. -/
def commaList (p : Phrase) : Phrase :=
  sequence [p, repetition (sequence [TokenKind.comma, p])]

open TokenKind Rule

def indices : Phrase := repetition (sequence [openBracket, number, closeBracket])

def members : Phrase := repetition (sequence [dot, identifier, indices])

def operands : Phrase := repetition (sequence [operator, factor])

def constEntry : Phrase := sequence [scalar, identifier, TokenKind.assignment, expression]

def memberType : Phrase := choice [scalar, sequence [kwStruct, identifier]]

def member : Phrase := sequence [memberType, declarator, semicolon]

def param : Phrase := sequence [scalar, identifier]

def externalParams : Phrase := sequence [openParen, optional (commaList scalar), closeParen]

def condition : Phrase := sequence [openParen, expression, closeParen]

def assignment : Phrase := sequence [designator, TokenKind.assignment, expression]

def loopHead : Phrase :=
  sequence [openParen, assignment, semicolon, expression, semicolon, assignment, closeParen]

def case : Phrase := sequence [kwCase, expression, colon, repetition statement]

/-- Behind the value of an assignment: the value was a condition, and here are the two values. -/
def alternatives : Phrase := sequence [question, expression, colon, expression]

def fallback : Phrase := sequence [kwDefault, colon, repetition statement]

def blockItem : Phrase := choice [statement, const, vars, struct]

/-- A statement that is no branch and no loop, and so ends with a token of its own. -/
def simpleStatement : Phrase :=
  choice
    [ sequence [assignment, optional alternatives, semicolon],
      sequence [designator, openParen, optional (commaList expression), closeParen, semicolon],
      sequence [kwSwitch, condition, openCurly, repetition case, optional fallback, closeCurly],
      sequence [kwRead, designator, semicolon],
      sequence [kwWrite, commaList expression, semicolon],
      sequence [openCurly, repetition blockItem, closeCurly] ]

def bodyItem : Phrase := choice [const, vars, struct, procedure, statement]

def programItem : Phrase := choice [const, vars, struct, procedure, external]

end Phrase

open Phrase TokenKind in
def Rule.phrase : Rule → Phrase
  | .program =>
      sequence [kwProgram, identifier, openCurly,
        repetition programItem, closeCurly, eof]
  | .const => sequence [kwConst, commaList constEntry, semicolon]
  | .vars => sequence [scalar, commaList declarator, semicolon]
  | .struct =>
      sequence [kwStruct, identifier,
        choice [sequence [openCurly, repetition member, closeCurly, semicolon],
          sequence [commaList declarator, semicolon]]]
  | .procedure =>
      sequence [kwVoid, identifier, openParen, optional (commaList param), closeParen, openCurly,
        repetition bodyItem, closeCurly]
  | .external =>
      sequence [kwExternal,
        choice [sequence [scalar, commaList identifier], sequence [kwConst, scalar, identifier],
          sequence [kwProcedure, identifier, optional externalParams]],
        semicolon]
  | .statement =>
      choice
        [ simpleStatement,
          sequence [kwIf, condition, statement, optional (sequence [kwElse, statement])],
          sequence [kwWhile, condition, statement],
          sequence [kwFor, loopHead, statement] ]
  | .scalar => choice [kwInt, kwBool]
  | .declarator => sequence [identifier, indices]
  | .designator => sequence [identifier, indices, members]
  | .expression => sequence [factor, operands]
  | .factor =>
      choice [designator, number, kwTrue, kwFalse, sequence [dash, factor],
        sequence [openParen, expression, closeParen]]
  | .operator =>
      choice [equals, notEquals, less, lessEquals, greater, greaterEquals, plus, dash, star, slash]

inductive Derives : Phrase → List TokenKind → Prop where
  | token (kind : TokenKind) : Derives (.token kind) [kind]
  | rule {r : Rule} {w : List TokenKind} (h : Derives r.phrase w) : Derives (.rule r) w
  | nil : Derives (.sequence []) []
  | cons {p : Phrase} {parts : List Phrase} {u v : List TokenKind} (hp : Derives p u)
      (hparts : Derives (.sequence parts) v) : Derives (.sequence (p :: parts)) (u ++ v)
  | choice {p : Phrase} {options : List Phrase} {w : List TokenKind} (hmem : p ∈ options)
      (h : Derives p w) : Derives (.choice options) w
  | stop {p : Phrase} : Derives (.repetition p) []
  | again {p : Phrase} {u v : List TokenKind} (hp : Derives p u)
      (hmore : Derives (.repetition p) v) : Derives (.repetition p) (u ++ v)

/-- What stands in front of `r` in `u` derives from the phrase. -/
def Spans (p : Phrase) (u r : List TokenKind) : Prop := ∃ w, Derives p w ∧ u = w ++ r

section

variable {p : Phrase} {u r : List TokenKind}

theorem derives_iff_spans : Derives p u ↔ Spans p u [] := by
  constructor
  · intro h
    exact ⟨u, h, by simp⟩
  · rintro ⟨w, h, rfl⟩
    simpa using h

@[grind →] theorem Spans.length_le (h : Spans p u r) : r.length ≤ u.length := by
  obtain ⟨w, -, rfl⟩ := h
  simp

@[simp] theorem spans_token {kind : TokenKind} : Spans (.token kind) u r ↔ u = kind :: r := by
  constructor
  · rintro ⟨w, h, rfl⟩
    cases h
    rfl
  · rintro rfl
    exact ⟨[kind], .token kind, rfl⟩

theorem spans_rule {rule : Rule} : Spans (.rule rule) u r ↔ Spans rule.phrase u r := by
  constructor
  · rintro ⟨w, h, rfl⟩
    cases h with
    | rule h => exact ⟨w, h, rfl⟩
  · rintro ⟨w, h, rfl⟩
    exact ⟨w, .rule h, rfl⟩

@[simp] theorem spans_nil : Spans (.sequence []) u r ↔ u = r := by
  constructor
  · rintro ⟨w, h, rfl⟩
    cases h
    rfl
  · rintro rfl
    exact ⟨[], .nil, rfl⟩

@[simp] theorem spans_cons {parts : List Phrase} :
    Spans (.sequence (p :: parts)) u r ↔ ∃ m, Spans p u m ∧ Spans (.sequence parts) m r := by
  constructor
  · rintro ⟨w, h, rfl⟩
    cases h with
    | @cons _ _ first second hp hparts =>
      exact ⟨second ++ r, ⟨first, hp, by simp⟩, second, hparts, rfl⟩
  · rintro ⟨m, ⟨first, hp, rfl⟩, second, hparts, rfl⟩
    exact ⟨first ++ second, .cons hp hparts, by simp⟩

@[simp] theorem spans_choice {options : List Phrase} :
    Spans (.choice options) u r ↔ ∃ p ∈ options, Spans p u r := by
  constructor
  · rintro ⟨w, h, rfl⟩
    cases h with
    | @choice p _ _ hmem h => exact ⟨p, hmem, w, h, rfl⟩
  · rintro ⟨p, hmem, w, h, rfl⟩
    exact ⟨w, .choice hmem h, rfl⟩

theorem spans_repetition :
    Spans (.repetition p) u r ↔ u = r ∨ ∃ m, Spans p u m ∧ Spans (.repetition p) m r := by
  constructor
  · rintro ⟨w, h, rfl⟩
    cases h with
    | stop => exact .inl rfl
    | @again _ first second hp hmore =>
      exact .inr ⟨second ++ r, ⟨first, hp, by simp⟩, second, hmore, rfl⟩
  · rintro (rfl | ⟨m, ⟨first, hp, rfl⟩, second, hmore, rfl⟩)
    · exact ⟨[], .stop, rfl⟩
    · exact ⟨first ++ second, .again hp hmore, by simp⟩

theorem Spans.stop (p : Phrase) (u : List TokenKind) : Spans (.repetition p) u u :=
  spans_repetition.mpr (.inl rfl)

theorem Spans.again {m : List TokenKind} (hp : Spans p u m) (hmore : Spans (.repetition p) m r) :
    Spans (.repetition p) u r :=
  spans_repetition.mpr (.inr ⟨m, hp, hmore⟩)

theorem Spans.repetition_trans {m : List TokenKind} (h₁ : Spans (.repetition p) u m)
    (h₂ : Spans (.repetition p) m r) : Spans (.repetition p) u r := by
  obtain ⟨w, hw, rfl⟩ := h₁
  generalize hphrase : Phrase.repetition p = q at hw
  induction hw with
  | stop =>
    cases hphrase
    exact h₂
  | @again _ first second hp _ _ ih =>
    cases hphrase
    exact .again ⟨first, hp, by simp⟩ (ih rfl)
  | token _ => cases hphrase
  | rule _ => cases hphrase
  | nil => cases hphrase
  | cons _ _ => cases hphrase
  | choice _ _ => cases hphrase

@[simp] theorem spans_optional : Spans p.optional u r ↔ Spans p u r ∨ u = r := by
  simp [Phrase.optional]

theorem spans_commaList :
    Spans p.commaList u r ↔
      ∃ m, Spans p u m ∧ Spans (.repetition (.sequence [.token .comma, p])) m r := by
  simp [Phrase.commaList]

/-! ## The rules

Each rule is said by the rests that its parts lead to.  The tokens that stand between two parts are
in front of those rests.
-/

theorem spans_scalar : Spans (.rule .scalar) u r ↔ u = .kwInt :: r ∨ u = .kwBool :: r := by
  rw [spans_rule]
  simp [Rule.phrase]

theorem spans_declarator :
    Spans (.rule .declarator) u r ↔ ∃ m, u = .identifier :: m ∧ Spans .indices m r := by
  rw [spans_rule]
  simp [Rule.phrase]

theorem spans_designator :
    Spans (.rule .designator) u r ↔
      ∃ l m, u = .identifier :: l ∧ Spans .indices l m ∧ Spans .members m r := by
  rw [spans_rule]
  simp [Rule.phrase]

theorem spans_expression :
    Spans (.rule .expression) u r ↔ ∃ m, Spans (.rule .factor) u m ∧ Spans .operands m r := by
  rw [spans_rule]
  simp [Rule.phrase]

theorem spans_factor :
    Spans (.rule .factor) u r ↔
      Spans (.rule .designator) u r ∨ u = .number :: r ∨ u = .kwTrue :: r ∨ u = .kwFalse :: r ∨
        (∃ m, u = .dash :: m ∧ Spans (.rule .factor) m r) ∨
        ∃ m, u = .openParen :: m ∧ Spans (.rule .expression) m (.closeParen :: r) := by
  rw [spans_rule]
  simp [Rule.phrase]

theorem spans_constEntry :
    Spans .constEntry u r ↔
      ∃ m, Spans (.rule .scalar) u (.identifier :: .assignment :: m) ∧
        Spans (.rule .expression) m r := by
  simp only [Phrase.constEntry, spans_cons, spans_token, spans_nil]
  grind

theorem spans_const :
    Spans (.rule .const) u r ↔
      ∃ m, u = .kwConst :: m ∧ Spans Phrase.constEntry.commaList m (.semicolon :: r) := by
  rw [spans_rule]
  simp [Rule.phrase]

theorem spans_vars :
    Spans (.rule .vars) u r ↔
      ∃ m, Spans (.rule .scalar) u m ∧
        Spans (Phrase.rule .declarator).commaList m (.semicolon :: r) := by
  rw [spans_rule]
  simp [Rule.phrase]

theorem spans_memberType :
    Spans .memberType u r ↔
      Spans (.rule .scalar) u r ∨ u = .kwStruct :: .identifier :: r := by
  simp [Phrase.memberType]

theorem spans_member :
    Spans .member u r ↔
      ∃ m, Spans .memberType u m ∧ Spans (.rule .declarator) m (.semicolon :: r) := by
  simp [Phrase.member]

theorem spans_struct :
    Spans (.rule .struct) u r ↔
      (∃ m, u = .kwStruct :: .identifier :: .openCurly :: m ∧
        Spans (.repetition .member) m (.closeCurly :: .semicolon :: r)) ∨
      ∃ m, u = .kwStruct :: .identifier :: m ∧
        Spans (Phrase.rule .declarator).commaList m (.semicolon :: r) := by
  rw [spans_rule]
  simp only [Rule.phrase, spans_cons, spans_token, spans_nil, spans_choice, List.mem_cons,
    List.not_mem_nil, or_false, exists_eq_or_imp, exists_eq_left]
  grind

theorem spans_param : Spans .param u r ↔ Spans (.rule .scalar) u (.identifier :: r) := by
  simp [Phrase.param]

theorem spans_procedure :
    Spans (.rule .procedure) u r ↔
      ∃ l m, u = .kwVoid :: .identifier :: .openParen :: l ∧
        Spans Phrase.param.commaList.optional l (.closeParen :: .openCurly :: m) ∧
        Spans (.repetition .bodyItem) m (.closeCurly :: r) := by
  rw [spans_rule]
  simp only [Rule.phrase, spans_cons, spans_token, spans_nil]
  grind

theorem spans_external :
    Spans (.rule .external) u r ↔
      (∃ l m, u = .kwExternal :: l ∧ Spans (.rule .scalar) l m ∧
        Spans (Phrase.token .identifier).commaList m (.semicolon :: r)) ∨
      (∃ m, u = .kwExternal :: .kwConst :: m ∧
        Spans (.rule .scalar) m (.identifier :: .semicolon :: r)) ∨
      ∃ m, u = .kwExternal :: .kwProcedure :: .identifier :: m ∧
        Spans Phrase.externalParams.optional m (.semicolon :: r) := by
  rw [spans_rule]
  simp only [Rule.phrase, spans_cons, spans_token, spans_nil, spans_choice, List.mem_cons,
    List.not_mem_nil, or_false, exists_eq_or_imp, exists_eq_left]
  grind

/-- The rules of the declarations that may stand in every list of items. -/
def declarationRules : List Rule := [.const, .vars, .struct]

theorem spans_externalParams :
    Spans .externalParams u r ↔
      ∃ m, u = .openParen :: m ∧
        Spans (Phrase.rule .scalar).commaList.optional m (.closeParen :: r) := by
  simp [Phrase.externalParams]

theorem spans_condition :
    Spans .condition u r ↔
      ∃ m, u = .openParen :: m ∧ Spans (.rule .expression) m (.closeParen :: r) := by
  simp [Phrase.condition]

theorem spans_assignment :
    Spans .assignment u r ↔
      ∃ m, Spans (.rule .designator) u (.assignment :: m) ∧ Spans (.rule .expression) m r := by
  simp only [Phrase.assignment, spans_cons, spans_token, spans_nil]
  grind

theorem spans_loopHead :
    Spans .loopHead u r ↔
      ∃ l m n, u = .openParen :: l ∧ Spans .assignment l (.semicolon :: m) ∧
        Spans (.rule .expression) m (.semicolon :: n) ∧ Spans .assignment n (.closeParen :: r) := by
  simp only [Phrase.loopHead, spans_cons, spans_token, spans_nil]
  grind

theorem spans_case :
    Spans .case u r ↔
      ∃ l m, u = .kwCase :: l ∧ Spans (.rule .expression) l (.colon :: m) ∧
        Spans (.repetition (.rule .statement)) m r := by
  simp only [Phrase.case, spans_cons, spans_token, spans_nil]
  grind

theorem spans_alternatives :
    Spans .alternatives u r ↔
      ∃ l m, u = .question :: l ∧ Spans (.rule .expression) l (.colon :: m) ∧
        Spans (.rule .expression) m r := by
  simp only [Phrase.alternatives, spans_cons, spans_token, spans_nil]
  grind

theorem spans_fallback :
    Spans .fallback u r ↔
      ∃ m, u = .kwDefault :: .colon :: m ∧ Spans (.repetition (.rule .statement)) m r := by
  simp only [Phrase.fallback, spans_cons, spans_token, spans_nil]
  grind

theorem spans_simpleStatement :
    Spans .simpleStatement u r ↔
      (∃ m, Spans .assignment u m ∧ Spans Phrase.alternatives.optional m (.semicolon :: r)) ∨
      (∃ m, Spans (.rule .designator) u (.openParen :: m) ∧
        Spans (Phrase.rule .expression).commaList.optional m (.closeParen :: .semicolon :: r)) ∨
      (∃ l m n, u = .kwSwitch :: l ∧ Spans .condition l (.openCurly :: m) ∧
        Spans (.repetition .case) m n ∧ Spans Phrase.fallback.optional n (.closeCurly :: r)) ∨
      (∃ m, u = .kwRead :: m ∧ Spans (.rule .designator) m (.semicolon :: r)) ∨
      (∃ m, u = .kwWrite :: m ∧
        Spans (Phrase.rule .expression).commaList m (.semicolon :: r)) ∨
      ∃ m, u = .openCurly :: m ∧ Spans (.repetition .blockItem) m (.closeCurly :: r) := by
  simp only [Phrase.simpleStatement, spans_cons, spans_token, spans_nil, spans_choice,
    List.mem_cons, List.not_mem_nil, or_false, exists_eq_or_imp, exists_eq_left]
  grind

theorem spans_statement :
    Spans (.rule .statement) u r ↔
      Spans .simpleStatement u r ∨
      (∃ l m, u = .kwIf :: l ∧ Spans .condition l m ∧ Spans (.rule .statement) m r) ∨
      (∃ l m n, u = .kwIf :: l ∧ Spans .condition l m ∧
        Spans (.rule .statement) m (.kwElse :: n) ∧ Spans (.rule .statement) n r) ∨
      (∃ l m, u = .kwWhile :: l ∧ Spans .condition l m ∧ Spans (.rule .statement) m r) ∨
      ∃ l m, u = .kwFor :: l ∧ Spans .loopHead l m ∧ Spans (.rule .statement) m r := by
  rw [spans_rule]
  simp only [Rule.phrase, spans_cons, spans_token, spans_nil, spans_choice, spans_optional,
    List.mem_cons, List.not_mem_nil, or_false, exists_eq_or_imp, exists_eq_left]
  grind

theorem spans_blockItem :
    Spans .blockItem u r ↔
      (∃ rule ∈ declarationRules, Spans (.rule rule) u r) ∨ Spans (.rule .statement) u r := by
  simp only [Phrase.blockItem, declarationRules, spans_choice, List.mem_cons, List.not_mem_nil,
    or_false, exists_eq_or_imp, exists_eq_left]
  grind

theorem spans_bodyItem :
    Spans .bodyItem u r ↔
      (∃ rule ∈ declarationRules, Spans (.rule rule) u r) ∨ Spans (.rule .procedure) u r ∨
        Spans (.rule .statement) u r := by
  simp only [Phrase.bodyItem, declarationRules, spans_choice, List.mem_cons, List.not_mem_nil,
    or_false, exists_eq_or_imp, exists_eq_left]
  grind

theorem spans_programItem :
    Spans .programItem u r ↔
      (∃ rule ∈ declarationRules, Spans (.rule rule) u r) ∨ Spans (.rule .procedure) u r ∨
        Spans (.rule .external) u r := by
  simp only [Phrase.programItem, declarationRules, spans_choice, List.mem_cons, List.not_mem_nil,
    or_false, exists_eq_or_imp, exists_eq_left]
  grind

theorem spans_program :
    Spans (.rule .program) u r ↔
      ∃ m, u = .kwProgram :: .identifier :: .openCurly :: m ∧
        Spans (.repetition .programItem) m (.closeCurly :: .eof :: r) := by
  rw [spans_rule]
  simp only [Rule.phrase, spans_cons, spans_token, spans_nil]
  grind

end

end SlotLang
