import ShellScript.Exec.Error
import ShellScript.Exec.Sink
import ShellScript.Trace

/-!
# Runs

The state that running a script changes: the output, whether the run was cancelled, and the log. An
`Action` works on that state and may fail; the state stays as it was when the failure came. The output may
go to any kind of writer.
-/

namespace ShellScript

variable [Output]

/-- The state of a run. -/
structure Run where
  stdout : Output.Writer := Output.standard
  stderr : Output.Writer := Output.standard
  cancelled : Bool := false
  /-- The spans that are open, the outermost first. -/
  spans : List Span := []
  /-- What was reported, the latest first. -/
  log : List Record := []

/-- A computation on the state of a run, which may fail. -/
abbrev Action := ExceptT ExecError (StateM Run)

namespace Run

/-- Reports events that happened within the open spans. -/
def report (r : Run) (events : List Event) : Run :=
  { r with log := (events.map (Record.event · r.spans)).reverse ++ r.log }

/-- The log in order. -/
def records (r : Run) : List Record := r.log.reverse

end Run

namespace Action

/-- Fails if the run was cancelled. -/
def checkCancelled : Action Unit := do
  if (← get).cancelled then throw .cancelled

/-- Cancels the run. -/
def cancel : Action Unit :=
  modify fun run => { run with cancelled := true }

/-- Reports an event. -/
def report (event : Event) : Action Unit :=
  modify (·.report [event])

/-- The result of working on a writer, as the result of an action. -/
def ofWriter (result : Except WriteError Unit) : Action Unit :=
  match result with
  | .ok () => pure ()
  | .error e => throw (.io e.message)

/-- Does something within a span, which is closed afterwards in any case. -/
def within {α : Type} (span : Span) (action : Action α) : Action α := fun run =>
  let opened := { run with spans := run.spans ++ [span], log := .opened span :: run.log }
  let (result, after) := action opened
  (result, { after with spans := run.spans })

/-- Writes to standard output, all at once. -/
def writeStdout (bytes : List UInt8) : Action Unit := do
  let (result, stdout) := Output.writeAll (← get).stdout bytes
  modify ({ · with stdout })
  ofWriter result

/-- Writes to standard error, all at once. -/
def writeStderr (bytes : List UInt8) : Action Unit := do
  let (result, stderr) := Output.writeAll (← get).stderr bytes
  modify ({ · with stderr })
  ofWriter result

/-- Flushes standard output. -/
def flushStdout : Action Unit := do
  let (result, stdout) := Output.flush (← get).stdout
  modify ({ · with stdout })
  ofWriter result

end Action

end ShellScript
