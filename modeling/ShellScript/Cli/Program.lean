import ShellScript.Cli.Config
import ShellScript.Cli.Dump
import ShellScript.Cli.ExitStatus
import ShellScript.Cli.Help
import ShellScript.Cli.LogFilter
import ShellScript.Cli.Options
import ShellScript.Cli.PlainText
import ShellScript.Cli.Script
import ShellScript.Exec.Session

/-!
# The program

From arguments to an outcome: `runProgram` reads the options, the configuration and the script, in this
order, and runs or dumps the script. What it needs from outside comes through a `Host`, so that the
same program runs on a real system and on one that is made up.
-/

namespace ShellScript.Cli

/-- What the program can ask for while it runs. -/
structure Host (m : Type → Type) where
  environment : Environment
  fileContents : String → m (Except FileError (List UInt8))
  standardInput : m Reader

/-- What a process leaves behind. -/
structure Outcome where
  status : Nat := 0
  stdout : List UInt8 := []
  stderr : String := ""
  deriving DecidableEq, Repr, Inhabited

namespace Outcome

/-- A success that prints a text. -/
def print (text : String) : Outcome := { stdout := Utf8.encode text }

/-- The end of a process, with the lines of its log. -/
def ofEnd (env : Environment) (stdout : List UInt8) (log : List String) (failure : Option Failure) :
    Outcome where
  status := (failure.map Failure.status).getD 0
  stdout
  stderr :=
    let report := failure.map fun f => s!"{env.errorPrefix} {f.message}"
    String.join ((log ++ report.toList).map (· ++ "\n"))

/-- A failure that comes before any output. -/
def fail (env : Environment) (message : String) : Outcome :=
  ofEnd env [] [] (some ⟨Failure.general, message⟩)

/-- The outcome if the options are not there to be followed. -/
def ofInterrupt (env : Environment) : Interrupt → Outcome
  | .help => print helpText
  | .version => print versionText
  | .error cause =>
    let message := s!"error: {cause.message}"
    { status := Failure.syntaxError
      stderr := (if env.keepsSequences then message else plainText message) ++ "\n" }

end Outcome

/-- A script that is ready: with the set of characters that end a command, and what the log shows. -/
structure Job where
  script : Script
  escape : EscapeSet
  filter : LogFilter
  vars : VariableMap

namespace Job

/-- Prints the commands of the script, up to the first mistake in it. -/
def dump (j : Job) (env : Environment) : Outcome :=
  let parser : Parser Cursor := .ofInput (.ofString j.script.text) j.script.label j.escape
  let (items, parser) := parser.items
  let stdout := items.flatMap fun
    | .ok command => Utf8.encode (Dump.line command)
    | .error _ => []
  let failure := items.findSome? fun
    | .ok _ => none
    | .error e => some (Failure.ofError (.parse e) j.script.text)
  let records := parser.takeJournal.1.map (Record.event · [])
  .ofEnd env stdout (j.filter.lines records) failure

/-- Runs the script. -/
def run (j : Job) (env : Environment) : Outcome :=
  let session : Session := { escape := j.escape, resolver := j.vars.toResolver }
  let (result, run) := session.run (Cursor.ofString j.script.text) j.script.label {}
  let failure := match result with
    | .ok () => none
    | .error e => some (Failure.ofError e j.script.text)
  .ofEnd env run.stdout.contents (j.filter.lines run.records) failure

end Job

section

variable {m : Type → Type} [Monad m]

/-- The configuration to use. -/
def Host.loadConfig (host : Host m) (explicit : Option String) : m (Except ConfigError Config) :=
  match ConfigFile.locate host.environment explicit with
  | none => return .ok {}
  | some file => return file.config (← host.fileContents file.path)

/-- The script that the options choose: their own text, or a file, or else standard input, which a dash
names too. -/
def Host.loadScript (host : Host m) (options : Options) (config : Config) :
    m (Except ScriptError Script) :=
  match options.script, options.file.filter (· ≠ "-") with
  | some text, _ => return .ok ⟨text, config.inlineLabel.getD inlineLabel⟩
  | none, some path => return Script.ofFile path (← host.fileContents path)
  | none, none => return Script.ofInput (← host.standardInput)

/-- Follows the options. -/
def Host.follow (host : Host m) (options : Options) : m Outcome := do
  let env := host.environment
  match ← host.loadConfig options.config with
  | .error e => return .fail env e.message
  | .ok config =>
    let config := config.withEnvironment env
    let config := { config with escape := options.escape.or config.escape }
    match config.escapeSet with
    | .error e => return .fail env (ConfigError.escape e).message
    | .ok escape =>
      match ← host.loadScript options config with
      | .error e => return .fail env e.message
      | .ok script =>
        let job : Job :=
          { script, escape, filter := .ofText config.logFilter
            vars := config.variableMap options.assignments }
        return if options.dump then job.dump env else job.run env

/-- Runs the program with arguments. -/
def runProgram (host : Host m) (arguments : List String) : m Outcome :=
  match Options.parse arguments with
  | .error interrupt => return .ofInterrupt host.environment interrupt
  | .ok options => host.follow options

end

end ShellScript.Cli
