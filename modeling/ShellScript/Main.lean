import ShellScript.Cli.Program

/-!
# Command line

The program on a real system: what it reads comes from the process, and its outcome goes back there.
-/

namespace ShellScript

/-- The number of a system error, which some calls report with its sign turned. -/
def errorNumber (code : UInt32) : UInt32 :=
  if code < 0x80000000 then code else 0 - code

/-- What kept a file from being read. -/
def fileErrorOf : IO.Error → FileError
  | .noFileOrDirectory _ _ _ => .notFound
  | .permissionDenied _ _ _ => .permissionDenied
  | .inappropriateType _ code _ => if errorNumber code = 20 then .notDirectory else .isDirectory
  | .invalidArgument _ code _ => if errorNumber code = 36 then .nameTooLong else .invalidName
  | e => .other (toString e)

/-- The contents of a file. -/
def readFileContents (path : String) : IO (Except FileError (List UInt8)) := do
  try
    if path.isEmpty then return .error .notFound
    return .ok (← IO.FS.readBinFile path).toList
  catch e => return .error (fileErrorOf e)

/-- All of standard input. -/
def readStandardInput : IO Reader := do
  return { unread := (← (← IO.getStdin).readBinToEnd).toList }

/-- The variables of the process that the program looks at. -/
def readEnvironment : IO Cli.Environment := do
  let names := ["GSH_CONFIG", "GSH_ESCAPE", "GSH_LOG", "NO_COLOR", "COLOR", "XDG_CONFIG_HOME", "HOME"]
  let entries ← names.filterMapM fun name => return (← IO.getEnv name).map (name, ·)
  return {
    entries
    stdoutIsTerminal := ← (← IO.getStdout).isTty
    stderrIsTerminal := ← (← IO.getStderr).isTty }

end ShellScript

/-- Runs the program on the arguments of the process. -/
def main (arguments : List String) : IO UInt32 := do
  let host : ShellScript.Cli.Host IO :=
    { environment := ← ShellScript.readEnvironment
      fileContents := ShellScript.readFileContents
      standardInput := ShellScript.readStandardInput }
  let outcome ← ShellScript.Cli.runProgram host arguments
  let stdout ← IO.getStdout
  stdout.write outcome.stdout.toByteArray
  stdout.flush
  (← IO.getStderr).putStr outcome.stderr
  return outcome.status.toUInt32
