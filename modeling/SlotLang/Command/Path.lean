/-!
# Paths

A path is a sequence of names with slashes between them.  The extension of a file is what stands
behind the last dot of its name, unless that dot is the first character.
-/

namespace SlotLang
namespace Command

namespace Path

/-- The parts of a path, with empty parts where slashes meet or stand at an end. -/
def split (path : String) : List String :=
  go [] path.toList
where
  go (part : List Char) : List Char → List String
    | [] => [String.ofList part.reverse]
    | '/' :: rest => String.ofList part.reverse :: go [] rest
    | c :: rest => go (c :: part) rest

/-- The name of the file that a path leads to, if the path ends with a name. -/
def fileName? (path : String) : Option String :=
  match ((split path).filter fun part => part ≠ "" ∧ part ≠ ".").getLast? with
  | some name => if name = ".." then none else some name
  | none => none

/-- What stands in front of the dot of the extension, if a name has an extension. -/
def stem? (name : List Char) : Option (List Char) :=
  match name.reverse.dropWhile (· ≠ '.') with
  | _ :: before => if before.isEmpty then none else some before.reverse
  | [] => none

/-- The path with another extension in its last name.  Where the stem is a single dot, the name up
to its extension is the two dots of the folder above, and that takes no extension. -/
def withExtension (path extension : String) : String :=
  let name := (path.toList.reverse.takeWhile (· ≠ '/')).reverse
  let folder := path.toList.take (path.toList.length - name.length)
  match stem? name with
  | none => String.ofList (folder ++ name) ++ "." ++ extension
  | some ['.'] => String.ofList (folder ++ ['.', '.'])
  | some stem => String.ofList (folder ++ stem) ++ "." ++ extension

end Path

end Command
end SlotLang
