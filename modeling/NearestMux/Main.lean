import NearestMux.CommandLine.Run

/-!
# The program

The command with the files of the machine to read from and its two channels to print on. Nothing is
decided here: what is read is handed to the command and what comes of it is printed.
-/

namespace NearestMux.Program

/-- The number by which a machine says that a directory stands where a file is wanted. -/
def directoryCode : UInt32 := 21

/-- The number by which a machine says that a name is too long. -/
def tooLongCode : UInt32 := 36

/-- The fault of a file that the machine reports; `none` for a failure that is no fault of a path.
-/
def faultOf? : IO.Error → Option FileFault
  | .noFileOrDirectory _ _ _ => some .absent
  | .noSuchThing _ _ _ => some .absent
  | .permissionDenied _ _ _ => some .refused
  | .inappropriateType _ code _ =>
    some (if code = directoryCode then .isDirectory else .notDirectory)
  | .invalidArgument _ code _ => if code = tooLongCode then some .tooLong else none
  | _ => none

/-- Reads the document of a path. -/
def read (path : String) : IO Loaded := do
  if path.toList.contains '\x00' then return .error .noPath
  try
    let text ← IO.FS.readFile path
    return .ok (Yaml.valueOf text)
  catch e =>
    match faultOf? e with
    | some fault => return .error fault
    | none => throw e

/-- The help text. -/
def helpText : String := "\n".intercalate [
  "usage: " ++ CommandLine.commandName ++
    " [-h] [-m MODULE] [-n NETLIST] [-c CONFIG] [-s SELECT] [--top TOP]",
  "                    [--reset-token RESET_TOKEN] [-v]",
  "                    wire"]

/-- The text of what breaks the command off. -/
def breakageText : Breakage → String
  | .setup fault => fault.message
  | .search _ => "the search went astray"
  | .patternMissing => "a pattern of the selection has no text"
  | .tokenMissing => "the reset token has no text"

/-- Prints what becomes of a command and gives its status. -/
def report : CommandOutcome → IO UInt32
  | .usage status line => do
    match line with
    | some text => IO.eprintln text
    | none => IO.println helpText
    return status.toUInt32
  | .done status output aside => do
    aside.forM fun line => IO.eprintln line
    output.forM fun line => IO.println line
    return status.toUInt32
  | .broken cause => do
    IO.eprintln (breakageText cause)
    return 1

end NearestMux.Program

/-- Runs the command on the words of the command line. -/
def main (words : List String) : IO UInt32 := do
  NearestMux.Program.report (← NearestMux.CommandLine.run NearestMux.Program.read words)
