import StaticCheck.Command

/-! # The program

Reads the arguments, the file they name and the log threshold of the environment, and prints what
the command leaves behind. -/

open StaticCheck

/-- Whether an error carries the given system code; some calls report it with a minus sign. -/
def hasCode (reported code : UInt32) : Bool := reported = code || reported = 0 - code

/-- What an error of the file system says about a path. -/
def contentOfError : IO.Error → FileContent
  | .noFileOrDirectory _ _ _ => .missing
  | .inappropriateType _ code _ => if hasCode code 20 then .notADirectory else .directory
  | .permissionDenied _ _ _ => .unreadable "Permission denied (os error 13)"
  | e@(.invalidArgument _ code _) =>
    if hasCode code 36 then .nameTooLong else .unreadable (toString e)
  | e => .unreadable (toString e)

/-- What is found at a path of the file system. -/
def readContent (path : String) : IO FileContent := do
  try
    return .bytes (← IO.FS.readBinFile path)
  catch e => return contentOfError e

/-- The file that a command reads. -/
def commandContent : Command → IO FileContent
  | .check path _ => readContent path
  | _ => return .missing

/-- The environment variable that sets the threshold of the log. -/
def logVariable : String := "RUST_LOG"

def main (args : List String) : IO UInt32 := do
  let command := Command.ofArgs args
  let content ← commandContent command
  let log := (← IO.getEnv logVariable).bind LogLevel.ofName?
  let output := command.run (fun _ => content) log
  IO.eprint output.stderr
  IO.print output.stdout
  return output.status.toUInt32
