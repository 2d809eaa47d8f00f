import SlotLang.Command.Action

/-!
# A folder to work in

The command can be carried out on a folder that is a value: files by their paths from the folder,
and no others.  A path is followed part by part, and every part but the last has to be a folder,
which is one if some file is inside it.  Names and paths have a greatest length, and nothing outside
the folder can be reached.
-/

namespace SlotLang
namespace Command

structure Folder where
  files : List (List String × ByteArray)

namespace Folder

/-- The greatest length of a name, in bytes. -/
def nameLimit : Nat := 255

/-- The greatest length of a path, in bytes. -/
def pathLimit : Nat := 4095

def hasFolder (f : Folder) (place : List String) : Bool :=
  place.isEmpty || f.files.any fun (path, _) => place.isPrefixOf path && place ≠ path

/-- Follows the parts of a path from a folder inside `f`; the place that it leads to. -/
def follow (f : Folder) : List String → List String → Option (List String)
  | place, [] => some place
  | place, part :: more =>
      if !f.hasFolder place then none
      else if part = "" ∨ part = "." then follow f place more
      else if part = ".." then
        if place.isEmpty then none else follow f place.dropLast more
      else if nameLimit < part.utf8ByteSize then none
      else follow f (place ++ [part]) more

/-- The place of a file, which is never a folder. -/
def locate (f : Folder) (path : String) : Option (List String) := do
  if path.startsWith "/" ∨ pathLimit < path.utf8ByteSize then none
  let place ← f.follow [] (Path.split path)
  if f.hasFolder place then none else some place

def read? (f : Folder) (path : String) : Option ByteArray := do
  f.files.lookup (← f.locate path)

def write? (f : Folder) (path : String) (content : ByteArray) : Option Folder := do
  let place ← f.locate path
  some ⟨f.files.filter (fun file => file.1 ≠ place) ++ [(place, content)]⟩

end Folder

/-- What is left when the command has ended. -/
structure Finished where
  exitCode : Nat
  output : List String
  folder : Folder

/-- Carries the command out on a folder; `printed` holds the lines so far, the latest first. -/
def Action.perform (f : Folder) (printed : List String) : Action → Finished
  | readFile path next =>
      (next ((f.read? path).bind String.fromUTF8?)).perform f printed
  | writeFile path text next =>
      match f.write? path text.toUTF8 with
      | some f => (next true).perform f printed
      | none => (next false).perform f printed
  | print line next => next.perform f (line :: printed)
  | complain _ next => next.perform f printed
  | exit code => ⟨code, printed.reverse, f⟩

def runIn (f : Folder) (args : List String) : Finished :=
  (run args).perform f []

end Command
end SlotLang
