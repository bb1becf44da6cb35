import ShellScript.Exec.Error

/-!
# Exit statuses

The number that a process leaves behind tells how it ended; zero stands for success.
-/

namespace ShellScript.Cli

/-- The end of a process that did not succeed. -/
structure Failure where
  status : Nat
  message : String
  deriving DecidableEq, Repr, Inhabited

namespace Failure

/-- The status of a failure that has none of its own. -/
def general : Nat := 1

/-- The status of a script, or a command line, that cannot be read. -/
def syntaxError : Nat := 2

/-- The status of a command that does not exist. -/
def notFound : Nat := 127

/-- The status of a run that was cancelled. -/
def cancelled : Nat := 130

/-- The status that belongs to an error. -/
def statusOf : ExecError → Nat
  | .parse _ => syntaxError
  | .commandNotFound _ => notFound
  | .cancelled => cancelled
  | .unsupported _ | .io _ => general

/-- The failure of a script. If its text is at fault, the message shows where. -/
def ofError (e : ExecError) (source : String) : Failure where
  status := statusOf e
  message := (e.parseError?.bind (·.diagnostic? source)).getD e.message

end Failure

end ShellScript.Cli
