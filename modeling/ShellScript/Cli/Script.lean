import ShellScript.Exec.Error
import ShellScript.Input.Reader

/-!
# Scripts

The text of a script together with the label that messages call it by.
-/

namespace ShellScript.Cli

/-- A script. -/
structure Script where
  text : String
  label : String
  deriving DecidableEq, Repr, Inhabited

/-- Why a script cannot be had. -/
inductive ScriptError
  | unreadableFile (path : String) (cause : FileError)
  | unreadableInput (cause : FileError)
  deriving DecidableEq, Repr

/-- The wording of a script error. -/
def ScriptError.message : ScriptError → String
  | unreadableFile path cause => s!"cannot read script {path}: {cause.message}"
  | unreadableInput cause => s!"cannot read script from stdin: {cause.message}"

namespace Script

/-- The label of a script from standard input. -/
def inputLabel : String := "(stdin)"

/-- The script in a file, given what reading the file came to. -/
def ofFile (path : String) (contents : Except FileError (List UInt8)) : Except ScriptError Script :=
  match FileError.textOf contents with
  | .ok text => .ok ⟨text, path⟩
  | .error cause => .error (.unreadableFile path cause)

/-- The script that standard input holds. -/
def ofInput (input : Reader) : Except ScriptError Script :=
  match FileError.textOf (input.takeAll.1.mapError FileError.other) with
  | .ok text => .ok ⟨text, inputLabel⟩
  | .error cause => .error (.unreadableInput cause)

end Script

end ShellScript.Cli
