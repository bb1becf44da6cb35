/-!
# Environment

The variables that a process starts with, as far as the program looks at them. Some of them count only
with a value that is not empty.
-/

namespace ShellScript.Cli

/-- The surroundings of a process. -/
structure Environment where
  /-- The variables by name. -/
  entries : List (String × String) := []
  /-- The home directory that the account has, for a process without a variable that tells. -/
  accountHome : Option String := none
  /-- Whether standard output is a terminal. -/
  stdoutIsTerminal : Bool := false
  /-- Whether standard error is a terminal. -/
  stderrIsTerminal : Bool := false
  deriving Repr, Inhabited

namespace Environment

/-- The value of a variable. -/
def get? (env : Environment) (name : String) : Option String :=
  env.entries.lookup name

/-- The value of a variable, unless it is empty. -/
def nonEmpty? (env : Environment) (name : String) : Option String :=
  (env.get? name).filter (!·.isEmpty)

/-- A path within a directory. -/
def joinPath (directory path : String) : String :=
  if directory.endsWith "/" then directory ++ path else directory ++ "/" ++ path

/-- The home directory. -/
def home? (env : Environment) : Option String :=
  (env.nonEmpty? "HOME").or env.accountHome

/-- The directory for configurations. A variable names it only by an absolute path. -/
def configDirectory? (env : Environment) : Option String :=
  ((env.get? "XDG_CONFIG_HOME").filter (·.startsWith "/")).or
    (env.home?.map (joinPath · ".config"))

/-- The configuration file that the environment names. -/
def configPath? (env : Environment) : Option String :=
  env.nonEmpty? "GSH_CONFIG"

/-- The configuration file of the user. -/
def defaultConfigPath? (env : Environment) : Option String :=
  env.configDirectory?.map (joinPath · "gsh/config.toml")

/-- Further characters that end a command. An empty value adds none, and counts. -/
def escape? (env : Environment) : Option String :=
  env.get? "GSH_ESCAPE"

/-- The log filter that the environment asks for. -/
def logFilter? (env : Environment) : Option String :=
  env.nonEmpty? "GSH_LOG"

/-- Whether output to a stream is coloured: one variable forbids it, another demands it, and without
them it depends on the stream. -/
def colors (env : Environment) (isTerminal : Bool) : Bool :=
  if env.get? "NO_COLOR" = some "1" then false
  else if env.get? "COLOR" = some "1" then true
  else isTerminal

/-- Whether standard output is coloured. -/
def colorsOutput (env : Environment) : Bool :=
  env.colors env.stdoutIsTerminal

/-- Whether escape sequences in messages about the options are left in, on a stream that is no terminal.
Here any value forbids colours, and any value but a zero demands them. -/
def keepsSequences (env : Environment) : Bool :=
  (env.nonEmpty? "NO_COLOR").isNone && (env.get? "CLICOLOR_FORCE").any (· ≠ "0")

/-- What stands before an error message. -/
def errorPrefix (env : Environment) : String :=
  if env.colors env.stderrIsTerminal then "\x1b[38;5;167mgsh:\x1b[0m" else "gsh:"

end Environment

end ShellScript.Cli
