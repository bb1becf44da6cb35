import ShellScript.ParseError

/-!
# Execution errors

Why running a script stopped, and what can go wrong with a file.
-/

namespace ShellScript

/-- Why a file cannot be read. -/
inductive FileError
  | notFound
  | permissionDenied
  | notDirectory
  | isDirectory
  | invalidName
  | nameTooLong
  /-- The contents were to be a text, and are not UTF-8. -/
  | notText
  | other (message : String)
  deriving DecidableEq, Repr

/-- The wording of a file error. -/
def FileError.message : FileError → String
  | notFound => "No such file or directory (os error 2)"
  | permissionDenied => "Permission denied (os error 13)"
  | notDirectory => "Not a directory (os error 20)"
  | isDirectory => "Is a directory (os error 21)"
  | invalidName => "file name contained an unexpected NUL byte"
  | nameTooLong => "File name too long (os error 36)"
  | notText => "stream did not contain valid UTF-8"
  | other message => message

/-- The text in a file, given what reading the file came to. -/
def FileError.textOf (contents : Except FileError (List UInt8)) : Except FileError String :=
  match contents with
  | .ok bytes =>
    match Utf8.decode? bytes with
    | some text => .ok text
    | none => .error notText
  | .error e => .error e

/-- Why running a script stopped. -/
inductive ExecError
  /-- The script could not be read any further. -/
  | parse (cause : ParseError)
  /-- Something that can be read and cannot be run. -/
  | unsupported (feature : String)
  /-- No builtin has the name. -/
  | commandNotFound (name : String)
  /-- The run was cancelled. -/
  | cancelled
  /-- Output was not taken, or the script could not be opened. -/
  | io (message : String)
  deriving DecidableEq, Repr, Inhabited

namespace ExecError

/-- The wording of an error. -/
def message : ExecError → String
  | parse cause => cause.message
  | unsupported feature => s!"unsupported feature: {feature}"
  | commandNotFound name => s!"{name}: command not found"
  | cancelled => "cancelled"
  | io message => message

/-- The parse error behind a failure, if that is what it is. -/
def parseError? : ExecError → Option ParseError
  | parse cause => some cause
  | _ => none

end ExecError

end ShellScript
