import ShellScript.Escape
import ShellScript.Exec.Run

/-!
# Builtins

A builtin is a command that runs inside the program. `echo` writes its arguments; options of it are
looked for in the first argument only.
-/

namespace ShellScript

/-- What a command does with the arguments after its name. -/
abbrev Builtin [Output] := List String → Action Unit

/-- The options of `echo`. -/
structure EchoOptions where
  newline : Bool := true
  escapes : Bool := false
  deriving DecidableEq, Repr

namespace EchoOptions

/-- The options with those that flag letters set. Any other letter makes it no option. -/
def setFlags (o : EchoOptions) : List Char → Option EchoOptions
  | [] => some o
  | 'n' :: rest => { o with newline := false }.setFlags rest
  | 'e' :: rest => { o with escapes := true }.setFlags rest
  | 'E' :: rest => { o with escapes := false }.setFlags rest
  | _ :: _ => none

/-- The options that an argument sets, if it sets any: a dash and flag letters. -/
def parse? (argument : String) : Option EchoOptions :=
  match argument.toList with
  | '-' :: flag :: rest => ({} : EchoOptions).setFlags (flag :: rest)
  | _ => none

end EchoOptions

/-- The bytes of the arguments with a space between them. The flag tells whether an escape cut them
off. -/
def echoArguments (escapes : Bool) : List String → List UInt8 × Bool
  | [] => ([], false)
  | argument :: rest =>
    let (bytes, stopped) :=
      if escapes then Escape.decodeBytes (Utf8.encode argument) else (Utf8.encode argument, false)
    if stopped || rest.isEmpty then (bytes, stopped)
    else
      let (more, stopped) := echoArguments escapes rest
      (bytes ++ 0x20 :: more, stopped)

/-- All bytes that `echo` writes. -/
def echoOutput (options : EchoOptions) (arguments : List String) : List UInt8 :=
  let (bytes, stopped) := echoArguments options.escapes arguments
  if options.newline && !stopped then bytes ++ [0x0A] else bytes

/-- The options of an argument list, and the arguments that are left. -/
def EchoOptions.split : List String → EchoOptions × List String
  | [] => ({}, [])
  | first :: rest =>
    match parse? first with
    | some options => (options, rest)
    | none => ({}, first :: rest)

/-- Writes the arguments separated by spaces: `-n` leaves out the newline at the end, `-e` decodes
escapes and `-E` does not. -/
def echo [Output] : Builtin := fun arguments =>
  let (options, arguments) := EchoOptions.split arguments
  Action.writeStdout (echoOutput options arguments)

end ShellScript
