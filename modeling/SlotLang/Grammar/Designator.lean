import SlotLang.Grammar.Terminal
import SlotLang.Text.Numeral

/-!
# Designators

A designator names a variable, an element of an array or a member of a struct, to any depth.  It is
resolved as one composed name, so its indices are spelled the way the elements of an array are: an
index that can be read as a number is written without sign and leading zeros.
-/

namespace SlotLang

/-- A number in brackets. -/
structure Index where
  opening : Token
  number : Terminal
  closing : Terminal
  deriving DecidableEq, Repr

structure MemberRef where
  dot : Token
  name : Terminal
  indices : List Index
  deriving DecidableEq, Repr

structure Designator where
  head : Terminal
  indices : List Index
  members : List MemberRef
  deriving DecidableEq, Repr

namespace Window

def readIndices : Nat → Window → List Index × Window
  | 0, w => ([], w)
  | steps + 1, w =>
      if w.kind = .openBracket then
        let (number, w₁) := w.advance.expect .number
        let (closing, w₂) := w₁.expect .closeBracket
        let (more, w₃) := readIndices steps w₂
        (⟨w.ahead, number, closing⟩ :: more, w₃)
      else ([], w)

/-- Reads members; a missing name ends the designator. -/
def readMembers : Nat → Window → List MemberRef × Window
  | 0, w => ([], w)
  | steps + 1, w =>
      if w.kind = .dot then
        match w.advance.expect .identifier with
        | (.missing kind next, w₁) => ([⟨w.ahead, .missing kind next, []⟩], w₁)
        | (.read name, w₁) =>
            let (indices, w₂) := readIndices steps w₁
            let (more, w₃) := readMembers steps w₂
            (⟨w.ahead, .read name, indices⟩ :: more, w₃)
      else ([], w)

def readDesignator (steps : Nat) (w : Window) : Designator × Window :=
  match w.expect .identifier with
  | (.missing kind next, w₁) => (⟨.missing kind next, [], []⟩, w₁)
  | (.read name, w₁) =>
      let (indices, w₂) := w₁.readIndices steps
      let (members, w₃) := w₂.readMembers steps
      (⟨.read name, indices, members⟩, w₃)

end Window

namespace Index

/-- What an index adds to a composed name. -/
def text (i : Index) : String :=
  match i.number.value? with
  | some value =>
      match Text.word? value with
      | some n => "[" ++ toString n ++ "]"
      | none => "[" ++ value ++ "]"
  | none => ""

end Index

namespace Designator

def indicesText (indices : List Index) : String :=
  String.join (indices.map Index.text)

def membersText? : List MemberRef → Option String
  | [] => some ""
  | m :: members => do
      let name ← m.name.value?
      let rest ← membersText? members
      some ("." ++ name ++ indicesText m.indices ++ rest)

/-- The composed name, unless a part of it is missing. -/
def name? (d : Designator) : Option String := do
  let head ← d.head.value?
  let members ← membersText? d.members
  some (head ++ indicesText d.indices ++ members)

end Designator
end SlotLang
