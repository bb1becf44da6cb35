import ShellScript.Exec.Echo
import ShellScript.Exec.Resolver
import ShellScript.Input.Scanner
import ShellScript.Parser

/-!
# Sessions

A session is what scripts run against: the resolver, the builtins, and the characters that end a
command. `run` reads commands one at a time and executes each before it reads the next; it stops at the
first failure, and flushes the output at the end in any case.
-/

namespace ShellScript

/-- The label of scripts that are no file, unless another one is chosen. -/
def inlineLabel : String := "(inline)"

variable [Output]

/-- What scripts run against. -/
structure Session where
  escape : EscapeSet := .default
  resolver : Resolver := VariableMap.toResolver {}
  builtins : List (String × Builtin) := [("echo", echo)]
  /-- The label of scripts that are no file. -/
  inlineLabel : String := inlineLabel

namespace Session

/-- The builtin of a name. -/
def builtin? (s : Session) (name : String) : Option Builtin :=
  s.builtins.lookup name

/-- The session with a builtin, in place of the one that had the name. -/
def withBuiltin (s : Session) (name : String) (builtin : Builtin) : Session :=
  { s with builtins := (name, builtin) :: s.builtins }

/-- Runs a builtin on arguments, within a span. -/
def dispatch (s : Session) (location : Location) (name : String) (arguments : List String) :
    Action Unit :=
  Action.within ⟨name, location⟩ do
    match s.builtin? name with
    | some builtin => builtin arguments
    | none =>
      Action.report .noBuiltin
      throw (.commandNotFound name)

/-- Executes a command: resolves its arguments, then runs the builtin that the first one names. A
command without tokens does nothing. -/
def execute (s : Session) (command : Command) : Action Unit := do
  match ← command.argv s.resolver with
  | [] => pure ()
  | name :: arguments => s.dispatch command.location name arguments

/-- Executes a command unless the run was cancelled. -/
def proceed (s : Session) (command : Command) : Action Unit := do
  Action.checkCancelled
  s.execute command

variable {σ : Type} [Input σ]

/-- Executes the commands that a parser reads, one after the other. -/
def runCommands (s : Session) (p : Parser σ) : Action Unit := fun run =>
  match _h : p.readCommand with
  | (.error e, p₁) => (.error (.parse e), run.report p₁.takeJournal.1)
  | (.ok none, p₁) => (.ok (), run.report p₁.takeJournal.1)
  | (.ok (some command), p₁) =>
    match s.proceed command (run.report p₁.takeJournal.1) with
    | (.error e, run) => (.error e, run)
    | (.ok (), run) => s.runCommands p₁.takeJournal.2 run
termination_by p.size
decreasing_by
  rw [Parser.size_takeJournal]
  exact Parser.size_readCommand_lt _h

/-- Does something and flushes the output afterwards. A failure to flush counts only if nothing failed
before. -/
def thenFlush (action : Action Unit) : Action Unit := fun run =>
  let (result, run) := action run
  let (flushed, run) := Action.flushStdout run
  match result with
  | .ok () => (flushed, run)
  | .error e => (.error e, run)

/-- Reads and runs a script. -/
def run (s : Session) (input : σ) (filename : String) : Action Unit :=
  thenFlush (s.runCommands (Parser.ofInput input filename s.escape))

/-- Runs a script that is a text. -/
def runString (s : Session) (script : String) : Action Unit :=
  s.run (Cursor.ofString script) s.inlineLabel

/-- Runs the script of a file, given what reading the file came to. A directory can be opened, so its
failure is one of reading the script. -/
def runFile (s : Session) (path : String) (contents : Except FileError (List UInt8)) :
    Action Unit :=
  match contents with
  | .ok bytes => s.run (Cursor.ofBytes bytes) path
  | .error .isDirectory =>
    let fault : Fault := ⟨0, .failure FileError.isDirectory.message true⟩
    s.run (Scanner.ofReader { unread := [], faults := [fault] }) path
  | .error e => throw (.io e.message)

end Session

end ShellScript
