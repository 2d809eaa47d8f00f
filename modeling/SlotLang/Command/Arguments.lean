import SlotLang.Diagnostic.Reporter
import SlotLang.Text.Numeral

/-!
# Arguments of the command

The command takes the path of a source file, and options in any order around it.  An option with
a value takes it from behind an equals sign, from the rest of its own argument if it is written
with one letter, or from the next argument, which may then not look like an option itself.  A
double dash ends the options.  Arguments are taken from left to right, and the first one that
decides the outcome does so: a request for the version or for help, or a mistake.
-/

namespace SlotLang
namespace Command

structure Options where
  input : String
  output : Option String
  minDistance : Nat
  deriving DecidableEq, Repr

inductive Request where
  | compile (options : Options)
  | showVersion
  | showHelp
  deriving DecidableEq, Repr

/-- The options that take a value. -/
inductive ValueOption where
  | output
  | minDistance
  deriving DecidableEq, Repr

/-- What has been given so far. -/
structure Given where
  input : Option String
  output : Option String
  minDistance : Option Nat
  deriving DecidableEq, Repr

namespace Given

def nothing : Given := ⟨none, none, none⟩

/-- Takes a path as the source file; there is only one, and it is not empty. -/
def setInput (g : Given) (path : String) : Option Given :=
  if g.input.isNone ∧ path ≠ "" then some { g with input := some path } else none

/-- Takes the value of an option, which can be given once. -/
def setValue (g : Given) (option : ValueOption) (value : String) : Option Given :=
  match option with
  | .output =>
      if g.output.isNone ∧ value ≠ "" then some { g with output := some value } else none
  | .minDistance => do
      let distance ← Text.word? value
      if g.minDistance.isNone then some { g with minDistance := some distance } else none

def finish (g : Given) : Option Options := do
  let input ← g.input
  some ⟨input, g.output, g.minDistance.getD Reporter.defaultDistance⟩

end Given

/-- How the arguments go on behind one of them. -/
inductive Progress where
  | continues (g : Given)
  /-- The next argument is the value of an option. -/
  | awaits (option : ValueOption) (g : Given)
  | decides (r : Request)
  deriving DecidableEq, Repr

/-- Takes an option that is written with two dashes and a name. -/
def takeLong (g : Given) (name : String) (value : Option String) : Option Progress :=
  match name, value with
  | "output", some value => (g.setValue .output value).map .continues
  | "output", none => some (.awaits .output g)
  | "min-error-distance", some value => (g.setValue .minDistance value).map .continues
  | "min-error-distance", none => some (.awaits .minDistance g)
  | "verbose", none => some (.continues g)
  | "version", none => some (.decides .showVersion)
  | "help", none => some (.decides .showHelp)
  | _, _ => none

/-- Takes the letters behind a single dash. -/
def takeShort (g : Given) : List Char → Option Progress
  | [] => some (.continues g)
  | 'v' :: more => takeShort g more
  | 'V' :: _ => some (.decides .showVersion)
  | 'h' :: _ => some (.decides .showHelp)
  | ['o'] => some (.awaits .output g)
  | 'o' :: '=' :: value => (g.setValue .output (String.ofList value)).map .continues
  | 'o' :: value => (g.setValue .output (String.ofList value)).map .continues
  | _ => none

/-- Takes an argument that is not the value of an option. -/
def takeArgument (g : Given) (arg : String) : Option Progress :=
  match arg.toList with
  | '-' :: '-' :: long =>
      let name := String.ofList (long.takeWhile (· ≠ '='))
      match long.dropWhile (· ≠ '=') with
      | _ :: value => takeLong g name (some (String.ofList value))
      | [] => takeLong g name none
  | '-' :: letter :: more => takeShort g (letter :: more)
  | _ => (g.setInput arg).map .continues

/-- Whether an argument looks like an option, so that it cannot be the value of one. -/
def looksLikeOption (arg : String) : Bool :=
  match arg.toList with
  | '-' :: _ :: _ => true
  | _ => false

/-- Takes all arguments behind the double dash. -/
def takeInputs (g : Given) : List String → Option Given
  | [] => some g
  | arg :: more => do takeInputs (← g.setInput arg) more

/-- Takes arguments from left to right; `awaited` is the option whose value comes next. -/
def takeArguments : Option ValueOption → Given → List String → Option Request
  | none, g, [] => g.finish.map .compile
  | some _, _, [] => none
  | none, g, arg :: more =>
      if arg = "--" then do
        let g ← takeInputs g more
        g.finish.map .compile
      else
        match takeArgument g arg with
        | none => none
        | some (.continues g) => takeArguments none g more
        | some (.awaits option g) => takeArguments (some option) g more
        | some (.decides r) => some r
  | some option, g, arg :: more =>
      if looksLikeOption arg then none
      else
        match g.setValue option arg with
        | none => none
        | some g => takeArguments none g more

/-- The request that a list of arguments makes, or nothing if the command is misused. -/
def parseArguments (args : List String) : Option Request :=
  takeArguments none .nothing args

end Command
end SlotLang
