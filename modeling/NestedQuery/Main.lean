import NestedQuery.CommandLine.Run
import NestedQuery.Store.File

/-! Runs the program where it is called. -/

namespace NestedQuery.CommandLine

/-- What a file's bytes are. -/
def Entry.ofBytes (bytes : ByteArray) : Entry :=
  match String.fromUTF8? bytes with
  | none => .binary
  | some content =>
    match Store.Database.ofText? content with
    | some tables => .database tables
    | none => .text content

/-- Why a file cannot be read, by the number of the system's error. -/
def Entry.ofErrorNumber (number : UInt32) : Entry :=
  if number = 21 then .directory
  else if number = 20 then .absent .notDirectory
  else if number = 36 then .absent .nameTooLong
  else if number = 13 then .absent .denied
  else .absent .missing

def findFile (path : String) : IO Entry := do
  try
    return .ofBytes (← IO.FS.readBinFile path)
  catch
    | .inappropriateType _ number _ => return .ofErrorNumber number
    | .invalidArgument _ number _ => return .ofErrorNumber number
    | .permissionDenied _ number _ => return .ofErrorNumber number
    | _ => return .absent .missing

/-- The directory of configurations: the one that the environment names, or else one at home. -/
def configDirectory : IO (Option String) := do
  match ← IO.getEnv "XDG_CONFIG_HOME" with
  | some path => if path.startsWith "/" then return some path else atHome
  | none => atHome
where
  atHome : IO (Option String) := do return (← IO.getEnv "HOME").map (· ++ "/.config")

/-- The steps from the root to the directory in which the program runs. -/
def workingSteps : IO (List String) := do
  return (steps (← IO.currentDir).toString).filter fun step => !step.isEmpty

def readInput : IO String := do (← IO.getStdin).readToEnd

end NestedQuery.CommandLine

open NestedQuery.CommandLine in
def main (words : List String) : IO UInt32 := do
  let place : Place IO :=
    ⟨findFile, ← workingSteps, readInput, ← configDirectory, ← IO.getEnv "NESTQL_CONFIG"⟩
  match ← run place words with
  | .ok output =>
    IO.print output
    return 0
  | .error failure =>
    match failure, failure.message with
    | .wrongCommandLine, _ => IO.eprintln ("Usage: " ++ Help.usage .program)
    | _, some message => IO.eprintln ("error: " ++ message)
    | _, none => IO.eprintln "stopped"
    return .ofNat failure.code
