import StaticCheck.Check
import StaticCheck.Directory
import StaticCheck.Log
import StaticCheck.Snippet

/-! # The command line

`Command.ofArgs` reads the arguments from left to right: a request for help or for the version ends
the reading at once, and so does the first mistake.  `Command.run` carries a command out; the files
it may read are given to it as a function. -/

namespace StaticCheck

/-! ### Arguments -/

/-- What the arguments ask for, as far as they are read. -/
structure Invocation where
  path : Option String
  verbose : Bool
  quiet : Bool
  listTree : Bool
  listTokens : Bool
deriving DecidableEq

/-- The command that the arguments amount to. -/
inductive Command where
  | help
  | version
  /-- The arguments make no sense. -/
  | misuse
  | check (path : String) (invocation : Invocation)
deriving DecidableEq

/-- An option without a value. -/
inductive Flag where
  | verbose | quiet | listTree | listTokens | help | version
deriving DecidableEq

namespace Flag

def ofLetter? : Char → Option Flag
  | 'v' => some verbose
  | 'q' => some quiet
  | 'h' => some help
  | 'V' => some version
  | _ => none

def ofWord? : String → Option Flag
  | "verbose" => some verbose
  | "quiet" => some quiet
  | "dump-ast" => some listTree
  | "dump-tokens" => some listTokens
  | "help" => some help
  | "version" => some version
  | _ => none

end Flag

namespace Invocation

def empty : Invocation := ⟨none, false, false, false, false⟩

/-- Sets a flag.  Help and version end the reading, and so does a flag that was set before. -/
def set (i : Invocation) : Flag → Except Command Invocation
  | .verbose => if i.verbose then .error .misuse else .ok { i with verbose := true }
  | .quiet => if i.quiet then .error .misuse else .ok { i with quiet := true }
  | .listTree => if i.listTree then .error .misuse else .ok { i with listTree := true }
  | .listTokens => if i.listTokens then .error .misuse else .ok { i with listTokens := true }
  | .help => .error .help
  | .version => .error .version

def setLetters (i : Invocation) : List Char → Except Command Invocation
  | [] => .ok i
  | c :: rest =>
    match Flag.ofLetter? c with
    | none => .error .misuse
    | some flag => do (← i.set flag).setLetters rest

/-- Sets the path.  There is only one, and it is not empty. -/
def setPath (i : Invocation) (path : String) : Except Command Invocation :=
  if i.path.isSome || path.isEmpty then .error .misuse else .ok { i with path := some path }

/-- Reads one argument in front of a `--`: a word behind two dashes, letters behind one dash, or
the path.  A dash alone is a path. -/
def read (i : Invocation) (arg : String) : Except Command Invocation :=
  match arg.toList with
  | '-' :: '-' :: word =>
    match Flag.ofWord? (String.ofList word) with
    | none => .error .misuse
    | some flag => i.set flag
  | '-' :: c :: letters => i.setLetters (c :: letters)
  | _ => i.setPath arg

/-- Reads arguments in order.  Behind a `--` every argument is a path. -/
def readAll (i : Invocation) : List String → Except Command Invocation
  | [] => .ok i
  | arg :: rest =>
    if arg = "--" then rest.foldlM setPath i
    else do (← i.read arg).readAll rest

def options (i : Invocation) : Options := ⟨i.listTokens, i.listTree, i.verbose⟩

end Invocation

/-- The command that the arguments amount to. -/
def Command.ofArgs (args : List String) : Command :=
  match Invocation.empty.readAll args with
  | .error command => command
  | .ok invocation =>
    match invocation.path with
    | none => .misuse
    | some path => .check path invocation

/-! ### Running -/

/-- What a command leaves behind. -/
structure Output where
  status : Nat
  stdout : String
  stderr : String
deriving DecidableEq

/-- Lines of a text, each with its end. -/
def unlines (lines : List String) : String := String.join (lines.map fun line => line ++ "\n")

def helpText : String := unlines [
  "Static semantic checker for a small imperative language",
  "",
  "Usage: semck [OPTIONS] <INPUT>",
  "",
  "Arguments:",
  "  <INPUT>  Input source file",
  "",
  "Options:",
  "  -v, --verbose      Verbose output",
  "  -q, --quiet        Only report failures; print nothing on success",
  "      --dump-ast     Dump AST (for debugging)",
  "      --dump-tokens  Dump tokens (for debugging)",
  "  -h, --help         Print help",
  "  -V, --version      Print version"]

def versionText : String := "semck 0.1.0\n"

/-- The threshold of the log: the one asked for, else a more talkative one in verbose runs. -/
def logThreshold (asked : Option LogLevel) (verbose : Bool) : LogLevel :=
  asked.getD (if verbose then .debug else .warn)

/-- Checks the text of a file.  The report goes to the standard output unless the run is quiet, all
else to the error output. -/
def checkFile (path source : String) (invocation : Invocation) (log : Option LogLevel) : Output :=
  let checked := checkWith invocation.options source
  let notes := notesIf invocation.verbose ["Checking " ++ path] ++ checked.notes ++
    logLines (logThreshold log invocation.verbose) checked.events
  match checked.outcome with
  | .ok metrics =>
    ⟨0, if invocation.quiet then "" else metrics.report ++ "\n", unlines notes⟩
  | .error failure =>
    ⟨1, "", unlines (notes ++ (failure.diagnostic 0).rows path source)⟩

/-- Carries a command out.  `log` is the threshold that the environment asks for. -/
def Command.run (command : Command) (file : String → FileContent) (log : Option LogLevel) :
    Output :=
  match command with
  | help => ⟨0, helpText, ""⟩
  | version => ⟨0, versionText, ""⟩
  -- the message about a mistake in the arguments belongs to the argument parser and is left out
  | misuse => ⟨2, "", ""⟩
  | check path invocation =>
    match (file path).text with
    | .error reason => ⟨1, "", "error: cannot read " ++ path ++ ": " ++ reason ++ "\n"⟩
    | .ok source => checkFile path source invocation log

end StaticCheck
