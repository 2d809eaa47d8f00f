import SlotLang.Command.Arguments
import SlotLang.Command.Path
import SlotLang.Compile
import SlotLang.Diagnostic.Excerpt

/-!
# What the command does

The command is described by the actions that it takes, each with what follows it; whoever carries
them out decides where files are and where text goes.  The listing is written even if there are
faults, and the summary is printed only if the listing could be written.  The command breaks off if
it cannot show where the scanner stopped.
-/

namespace SlotLang
namespace Command

inductive Action where
  /-- Reads a file; there is no text if the file cannot be read or is no text. -/
  | readFile (path : String) (next : Option String → Action)
  /-- Writes a file, and goes on with whether that was possible. -/
  | writeFile (path text : String) (next : Bool → Action)
  | print (line : String) (next : Action)
  /-- Says something that is not part of the output. -/
  | complain (line : String) (next : Action)
  | exit (code : Nat)

def printLines (lines : List String) (next : Action) : Action :=
  lines.foldr .print next

def versionLine : String := "tastier 0.1.0"

def usageLine : String := "Usage: tastier [OPTIONS] <INPUT>"

def helpLines : List String :=
  [ usageLine,
    "",
    "Arguments:",
    "  <INPUT>  Source file to compile",
    "",
    "Options:",
    "  -o, --output <OUTPUT>         Listing to write, instead of the input with extension .asm",
    "  -v, --verbose                 May be repeated; has no effect on the listing",
    "      --min-error-distance <N>  Tokens to consume after an error before reporting another",
    "  -h, --help                    Print help",
    "  -V, --version                 Print version" ]

/-- The file that the listing goes to. -/
def Options.outputPath (o : Options) : String :=
  o.output.getD (Path.withExtension o.input "asm")

/-- The name of the source in positions. -/
def Options.sourceName (o : Options) : String :=
  (Path.fileName? o.input).getD Position.unnamedFile

/-- Reports a compilation and writes its listing. -/
def deliver (o : Options) (c : Compilation) : Action :=
  printLines (c.diagnostics.map Diagnostic.text) <|
    .writeFile o.outputPath (renderListing c.listing) fun written =>
      if written then .print c.summary (.exit (if c.isSuccess then 0 else 1))
      else .complain ("failed to write " ++ o.outputPath) (.exit 1)

/-- The exit code of a command that breaks off. -/
def brokenOff : Nat := 101

/-- Shows the fault that stopped the scanner. -/
def showFault (o : Options) (source : String) (e : PlacedFault) : Action :=
  printLines (e.excerpt source o.input) <|
    match e.markLine? source with
    | some mark => .print mark (.exit 1)
    | none => .complain "the mark is too far to the right" (.exit brokenOff)

def compileFile (o : Options) : Action :=
  .readFile o.input fun source =>
    match source with
    | none => .complain ("Error reading file '" ++ o.input ++ "'") (.exit 1)
    | some source =>
        match compile source o.sourceName o.minDistance with
        | .ok c => deliver o c
        | .error e => showFault o source e

/-- The whole command. -/
def run (args : List String) : Action :=
  match parseArguments args with
  | none => .complain usageLine (.exit 2)
  | some .showVersion => .print versionLine (.exit 0)
  | some .showHelp => printLines helpLines (.exit 0)
  | some (.compile o) => compileFile o

end Command
end SlotLang
