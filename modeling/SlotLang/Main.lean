import SlotLang.Command.Action

/-!
# The program

Carries out the actions of the command on the files and streams of the process.
-/

namespace SlotLang
namespace Command

def attempt {α : Type} (x : IO α) : IO (Option α) :=
  try
    let a ← x
    return some a
  catch _ => return none

def Action.execute : Action → IO UInt32
  | readFile path next => do (next (← attempt (IO.FS.readFile path))).execute
  | writeFile path text next => do
      (next (← attempt (IO.FS.writeFile path text)).isSome).execute
  | print line next => do
      IO.println line
      next.execute
  | complain line next => do
      IO.eprintln line
      next.execute
  | exit code => return code.toUInt32

end Command
end SlotLang

def main (args : List String) : IO UInt32 :=
  (SlotLang.Command.run args).execute
