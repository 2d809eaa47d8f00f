import SlotLang.Proofs.Limits

/-!
# The order of the elements of an array

The indices of an element are the digits of its position, in the mixed radix that the bounds give.  So
every position has an element, every admitted choice of indices has a position, and going through the
positions is going through the indices in lexicographic order.

The last part computes the names in the way of a machine: in words, position by position, with a period
that is divided by one extent after the other.  It comes to the same names, and nothing is ever divided
by zero or too large for a word on the way, unless the array is above the limit.
-/

namespace SlotLang
namespace Aggregate

/-! ## Mixed radix -/

/-- The number that is written with these digits, the most significant first, if each bound is the
largest digit of its place. -/
def radixValue : List Nat → List Nat → Nat
  | _ :: bounds, digit :: digits => digit * elementCount bounds + radixValue bounds digits
  | _, _ => 0

/-- The digits of a number, the most significant first. -/
def radixDigits : List Nat → Nat → List Nat
  | [], _ => []
  | _ :: bounds, n => n / elementCount bounds :: radixDigits bounds (n % elementCount bounds)

theorem elementCount_pos (bounds : List Nat) : 0 < elementCount bounds := by
  induction bounds with
  | nil => exact Nat.one_pos
  | cons bound bounds ih =>
    rw [elementCount_cons]
    exact Nat.mul_pos (Nat.succ_pos bound) ih

theorem elementCount_eq_foldr (bounds : List Nat) :
    elementCount bounds = (bounds.map (· + 1)).foldr (· * ·) 1 := by
  induction bounds with
  | nil => rfl
  | cons bound bounds ih => rw [elementCount_cons, ih, List.map_cons, List.foldr_cons]

theorem radixValue_lt {digits bounds : List Nat} (h : List.Forall₂ (· ≤ ·) digits bounds) :
    radixValue bounds digits < elementCount bounds := by
  induction h with
  | nil => exact Nat.one_pos
  | @cons digit bound digits bounds hle _ ih =>
    rw [elementCount_cons, radixValue]
    calc digit * elementCount bounds + radixValue bounds digits
      _ < digit * elementCount bounds + elementCount bounds := Nat.add_lt_add_left ih _
      _ = (digit + 1) * elementCount bounds := (Nat.succ_mul _ _).symm
      _ ≤ (bound + 1) * elementCount bounds := Nat.mul_le_mul_right _ (Nat.succ_le_succ hle)

theorem radixDigits_admitted {bounds : List Nat} {n : Nat} (h : n < elementCount bounds) :
    List.Forall₂ (· ≤ ·) (radixDigits bounds n) bounds := by
  induction bounds generalizing n with
  | nil => exact .nil
  | cons bound bounds ih =>
    rw [elementCount_cons] at h
    have hpos := elementCount_pos bounds
    exact .cons (Nat.le_of_lt_succ ((Nat.div_lt_iff_lt_mul hpos).mpr h)) (ih (Nat.mod_lt n hpos))

theorem radixValue_radixDigits {bounds : List Nat} {n : Nat} (h : n < elementCount bounds) :
    radixValue bounds (radixDigits bounds n) = n := by
  induction bounds generalizing n with
  | nil => exact (Nat.lt_one_iff.mp h).symm
  | cons bound bounds ih =>
    rw [radixDigits, radixValue, ih (Nat.mod_lt n (elementCount_pos bounds)), Nat.div_add_mod']

theorem radixDigits_cons_add (bound digit : Nat) {bounds : List Nat} {n : Nat}
    (h : n < elementCount bounds) :
    radixDigits (bound :: bounds) (digit * elementCount bounds + n) =
      digit :: radixDigits bounds n := by
  rw [radixDigits, Nat.mul_comm, Nat.mul_add_div (elementCount_pos bounds), Nat.div_eq_of_lt h,
    Nat.add_zero, Nat.mul_add_mod, Nat.mod_eq_of_lt h]

theorem radixDigits_radixValue {digits bounds : List Nat} (h : List.Forall₂ (· ≤ ·) digits bounds) :
    radixDigits bounds (radixValue bounds digits) = digits := by
  induction h with
  | nil => rfl
  | cons _ hdigits ih => rw [radixValue, radixDigits_cons_add _ _ (radixValue_lt hdigits), ih]

/-- Numbers are compared digit by digit. -/
theorem radixValue_lt_iff {digits others bounds : List Nat}
    (h : List.Forall₂ (· ≤ ·) digits bounds) (hothers : List.Forall₂ (· ≤ ·) others bounds) :
    radixValue bounds digits < radixValue bounds others ↔ digits < others := by
  induction h generalizing others with
  | nil =>
    cases hothers
    simp [radixValue]
  | @cons digit bound digits bounds _ hdigits ih =>
    obtain _ | @⟨other, _, others, _, _, hothers⟩ := hothers
    have hlt := radixValue_lt hdigits
    have hlt' := radixValue_lt hothers
    rw [radixValue, radixValue, List.cons_lt_cons_iff, ← ih hothers]
    -- A greater digit outweighs all digits behind it.
    have houtweighs {a b : Nat} (hab : a < b) :
        a * elementCount bounds + elementCount bounds ≤ b * elementCount bounds := by
      rw [← Nat.succ_mul]
      exact Nat.mul_le_mul_right _ hab
    rcases Nat.lt_trichotomy digit other with hless | rfl | hgreater
    · have hle := houtweighs hless
      exact iff_of_true (by omega) (.inl hless)
    · simp
    · have hle := houtweighs hgreater
      exact iff_of_false (by omega) (by omega)

/-! ## Positions -/

theorem map_range_mul {α : Type} (m k : Nat) (f : Nat → α) :
    (List.range (m * k)).map f =
      (List.range m).flatMap fun i => (List.range k).map fun j => f (i * k + j) := by
  induction m with
  | zero => simp
  | succ m ih =>
    rw [Nat.succ_mul, List.range_add, List.map_append, ih, List.range_succ, List.flatMap_append]
    simp [Function.comp_def]

/-- The indices at a position are the digits of the position. -/
theorem tuples_eq_map_range (bounds : List Nat) :
    tuples bounds = (List.range (elementCount bounds)).map (radixDigits bounds) := by
  induction bounds with
  | nil => rfl
  | cons bound bounds ih =>
    rw [elementCount_cons, map_range_mul, tuples, ih]
    refine List.flatMap_congr fun index _ => ?_
    rw [List.map_map]
    refine List.map_congr_left fun n hn => ?_
    exact (radixDigits_cons_add bound index (List.mem_range.mp hn)).symm

/-- The name of the element with these indices. -/
def elementName (base : String) (indices : List Nat) : String :=
  base ++ String.join (indices.map fun index => "[" ++ toString index ++ "]")

theorem elementName_cons (base : String) (index : Nat) (indices : List Nat) :
    elementName base (index :: indices) = elementName (indexed base index) indices := by
  simp [elementName, indexed, String.append_assoc]

/-- The indices can be read off a name, whatever the name of the array is. -/
theorem elementName_inj {base : String} {indices others : List Nat}
    (h : elementName base indices = elementName base others) : indices = others := by
  have hword : IsWord "a" := by decide
  have htext (indices : List Nat) : (Step.part ⟨"a", indices⟩).text = elementName "a" indices := by
    simp [Step.part, PathPart.text, elementName, Function.comp_def]
  have hsame : elementName "a" indices = elementName "a" others :=
    congrArg ("a" ++ ·) (String.append_right_inj base |>.mp h)
  rw [← htext, ← htext] at hsame
  have hpart := (Step.part_plain hword).text_inj (Step.part_plain hword) hsame
  have hstep := congrArg PathPart.step hpart
  rw [Step.step_part, Step.step_part] at hstep
  exact congrArg Step.indices hstep

theorem allElements_eq_map_range (base : String) (bounds : List Nat) :
    allElements base bounds =
      (List.range (elementCount bounds)).map fun n => elementName base (radixDigits bounds n) := by
  rw [allElements_eq, tuples_eq_map_range, List.map_map]
  rfl

/-! ## In machine words -/

end Aggregate

namespace Word

open Aggregate

def div? (a b : Nat) : Option Nat := if b = 0 then none else some (a / b)

def mod? (a b : Nat) : Option Nat := if b = 0 then none else some (a % b)

/-- One round of spelling the name of an element: the period becomes shorter, and the next index goes
behind the name. -/
def indexRound (element : Nat) (state : String × Nat) (extent : Nat) : Option (String × Nat) := do
  let period ← div? state.2 extent
  let quotient ← div? element period
  let index ← mod? quotient extent
  some (indexed state.1 index, period)

/-- The names of all elements, computed in words. -/
def elements? (base : String) (bounds : List Nat) : Option (List String) := do
  let extents ← bounds.mapM fun bound => add? bound 1
  let total ← (extents.foldlM mul? 1).filter (· ≤ elementLimit)
  (List.range total).mapM fun element =>
    (extents.foldlM (indexRound element) (base, total)).map (·.1)

/-- What is left of the period in front of a dimension is the number of elements behind it. -/
theorem foldlM_indexRound (element : Nat) (base : String) (bounds : List Nat) :
    (bounds.map (· + 1)).foldlM (indexRound element) (base, elementCount bounds) =
      some (elementName base (radixDigits bounds (element % elementCount bounds)), 1) := by
  induction bounds generalizing base with
  | nil => simp [elementName, radixDigits, elementCount_nil]
  | cons bound bounds ih =>
    have hpos := elementCount_pos bounds
    have hround : indexRound element (base, elementCount (bound :: bounds)) (bound + 1) =
        some (indexed base (element / elementCount bounds % (bound + 1)), elementCount bounds) := by
      simp [indexRound, div?, mod?, elementCount_cons, Nat.pos_iff_ne_zero.mp hpos]
    rw [List.map_cons, List.foldlM_cons, hround, Option.bind_eq_bind, Option.bind_some, ih,
      radixDigits, elementName_cons, elementCount_cons, Nat.mod_mul_left_mod,
      Nat.mod_mul_left_div_self]

theorem mapM_some {α β : Type} {f : α → Option β} {g : α → β} {items : List α}
    (h : ∀ a ∈ items, f a = some (g a)) : items.mapM f = some (items.map g) := by
  induction items with
  | nil => rfl
  | cons a items ih =>
    obtain ⟨ha, hitems⟩ := List.forall_mem_cons.mp h
    simp [List.mapM_cons, ha, ih hitems]

theorem elements?_eq (base : String) (bounds : List Nat) :
    elements? base bounds = Aggregate.elements? base bounds := by
  have hlimit := elementLimit_lt_wordBound
  have hcount : elements? base bounds = ((elementCount? bounds).filter (· ≤ elementLimit)).bind
      fun total => (List.range total).mapM fun element =>
        ((bounds.map (· + 1)).foldlM (indexRound element) (base, total)).map (·.1) := by
    unfold elements? elementCount?
    rw [mapM_add?]
    split <;> rfl
  rw [hcount, elementCount?_eq, Aggregate.elements?]
  by_cases hle : elementCount bounds ≤ elementLimit
  · have hlt : elementCount bounds < Text.wordBound := Nat.lt_of_le_of_lt hle hlimit
    rw [if_pos hlt, if_pos hle, allElements_eq_map_range]
    simp only [Option.filter, hle, decide_true, if_true, Option.bind_some]
    refine mapM_some fun element helement => ?_
    rw [foldlM_indexRound, Nat.mod_eq_of_lt (List.mem_range.mp helement)]
    rfl
  · rw [if_neg hle]
    by_cases hlt : elementCount bounds < Text.wordBound <;> simp [hlt, hle, Option.filter]

end Word

/-! ## All elements -/

namespace Aggregate

/-- The names are those of all elements, and each position has the element with its digits. -/
structure Enumerates (base : String) (bounds : List Nat) (names : List String) : Prop where
  length : names.length = (bounds.map (· + 1)).foldr (· * ·) 1
  distinct : names.Nodup
  named : ∀ j < names.length, names[j]? = some (elementName base (radixDigits bounds j))
  digits : ∀ j < names.length, List.Forall₂ (· ≤ ·) (radixDigits bounds j) bounds ∧
    radixValue bounds (radixDigits bounds j) = j
  /-- All admitted indices have a position, and only one. -/
  once : ∀ indices, List.Forall₂ (· ≤ ·) indices bounds →
    ∃! j : Nat, names[j]? = some (elementName base indices)
  ordered : ∀ i j, i < j → j < names.length → radixDigits bounds i < radixDigits bounds j

theorem enumerates_allElements (base : String) (bounds : List Nat) :
    Enumerates base bounds (allElements base bounds) := by
  have hlength := length_allElements base bounds
  have hnames := allElements_eq_map_range base bounds
  generalize allElements base bounds = names at hlength hnames
  have hnamed (j : Nat) (hj : j < elementCount bounds) :
      names[j]? = some (elementName base (radixDigits bounds j)) := by
    simp [hnames, hj]
  refine ⟨hlength.trans (elementCount_eq_foldr bounds), ?_, ?_, ?_, ?_, ?_⟩
  · rw [hnames, List.nodup_map_iff_inj_on List.nodup_range]
    intro i hi j hj h
    rw [← radixValue_radixDigits (List.mem_range.mp hi), elementName_inj h,
      radixValue_radixDigits (List.mem_range.mp hj)]
  · exact fun j hj => hnamed j (hlength ▸ hj)
  · exact fun j hj => ⟨radixDigits_admitted (hlength ▸ hj), radixValue_radixDigits (hlength ▸ hj)⟩
  · intro indices hindices
    have hlt := radixValue_lt hindices
    have hhere := hnamed _ hlt
    rw [radixDigits_radixValue hindices] at hhere
    refine ⟨radixValue bounds indices, hhere, fun j hj => ?_⟩
    have hbound : j < elementCount bounds := hlength ▸ (List.getElem?_eq_some_iff.mp hj).1
    have hsame := elementName_inj (Option.some.inj ((hnamed j hbound).symm.trans hj))
    rw [← hsame, radixValue_radixDigits hbound]
  · intro i j hlt hj
    have hj : j < elementCount bounds := hlength ▸ hj
    have hi : i < elementCount bounds := Nat.lt_trans hlt hj
    rwa [← radixValue_lt_iff (radixDigits_admitted hi) (radixDigits_admitted hj),
      radixValue_radixDigits hi, radixValue_radixDigits hj]

end Aggregate

open Aggregate

/-- An array is flattened exactly if the product of its extents is within the limit, however large the
bounds are, and then into all of its elements: the position of an element is the number that its indices
write in mixed radix.  Computed in machine words the names are the same. -/
theorem elements_enumerate_array (base : String) (bounds : List Nat) :
    (elements? base bounds = none ↔ 65536 < (bounds.map (· + 1)).foldr (· * ·) 1) ∧
    ((bounds.map (· + 1)).foldr (· * ·) 1 ≤ 65536 →
      ∃ names, elements? base bounds = some names ∧ Enumerates base bounds names) ∧
    Word.elements? base bounds = elements? base bounds := by
  rw [← elementCount_eq_foldr]
  refine ⟨?_, fun hle => ?_, Word.elements?_eq base bounds⟩
  · rw [elements?, ite_eq_right_iff, ← Nat.not_le]
    exact ⟨fun h hle => Option.some_ne_none _ (h hle), fun h hle => absurd hle h⟩
  · exact ⟨allElements base bounds, if_pos hle, enumerates_allElements base bounds⟩

/-- The largest bound that fits into a word is refused, and a bound of zero has one index. -/
theorem elements_enumerate_array_threeDimensions :
    elements? "m" [18446744073709551615, 18446744073709551615] = none ∧
    ([1, 0, 1].map (· + 1)).foldr (· * ·) 1 ≤ 65536 ∧
    ∃ names, elements? "m" [1, 0, 1] = some names ∧ Enumerates "m" [1, 0, 1] names ∧
      names = ["m[0][0][0]", "m[0][0][1]", "m[1][0][0]", "m[1][0][1]"] := by
  have hsmall : ([1, 0, 1].map (· + 1)).foldr (· * ·) 1 ≤ 65536 := by decide
  obtain ⟨names, hnames, henumerates⟩ := (elements_enumerate_array "m" [1, 0, 1]).2.1 hsmall
  have hvalue : elements? "m" [1, 0, 1] =
      some ["m[0][0][0]", "m[0][0][1]", "m[1][0][0]", "m[1][0][1]"] := by decide +kernel
  refine ⟨(elements_enumerate_array "m" _).1.mpr (by decide), hsmall, names, hnames, henumerates, ?_⟩
  exact Option.some.inj (hnames.symm.trans hvalue)

end SlotLang
