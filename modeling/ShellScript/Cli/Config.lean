import ShellScript.Cli.Environment
import ShellScript.EscapeSet
import ShellScript.Exec.Resolver
import ShellScript.Toml.Statement

/-!
# Configuration

A configuration file is a TOML document with up to three texts (`escape`, `inline_label`, `log`) and a
table `vars` of texts. `Config.ofToml?` accepts such documents and no others. The environment overrides
what the file says.
-/

namespace ShellScript.Cli

/-- What can be configured. -/
structure Config where
  /-- Characters that end a command besides the semicolon and the newline. -/
  escape : Option String := none
  /-- The label of a script given on the command line. -/
  inlineLabel : Option String := none
  /-- The log filter. -/
  log : Option String := none
  /-- Variables with values, each name once. -/
  vars : List (String × String) := []
  deriving DecidableEq, Repr, Inhabited

/-- How a document has written the table of variables so far. Each way excludes the others. -/
inductive VarsForm
  /-- Not yet. -/
  | absent
  /-- By keys with a dot, which may go on. -/
  | dotted
  /-- As one value. -/
  | inline
  /-- Under a header, where every later statement belongs to it. -/
  | headed
  deriving DecidableEq, Repr

namespace Config

/-- Sets a field that has no value yet; `none` if it has one. -/
def fill (field : Option String) (text : String) : Option (Option String) :=
  match field with
  | none => some (some text)
  | some _ => none

/-- Sets the field that a document calls `name`. -/
def set? (c : Config) (name text : String) : Option Config :=
  match name with
  | "escape" => (fill c.escape text).map fun escape => { c with escape }
  | "inline_label" => (fill c.inlineLabel text).map fun inlineLabel => { c with inlineLabel }
  | "log" => (fill c.log text).map fun log => { c with log }
  | _ => none

/-- Adds a variable. Its key is a single name, and a new one. -/
def addVar? (c : Config) (key : Toml.Key) (text : String) : Option Config :=
  match key with
  | [name] =>
    if (c.vars.lookup name).isSome then none
    else some { c with vars := c.vars ++ [(name, text)] }
  | _ => none

/-- Takes in a statement of a document. -/
def withStatement? (state : Config × VarsForm) (statement : Toml.Statement) : Option (Config × VarsForm) :=
  let (c, form) := state
  match form, statement with
  | .absent, .header ["vars"] => some (c, .headed)
  | .headed, .assign key (.text text) => (c.addVar? key text).map (·, .headed)
  | .headed, _ => none
  | .absent, .assign ["vars"] (.table entries) =>
    (entries.foldlM (fun (c : Config) (key, text) => c.addVar? key text) c).map (·, .inline)
  | .absent, .assign ("vars" :: key) (.text text)
  | .dotted, .assign ("vars" :: key) (.text text) => (c.addVar? key text).map (·, .dotted)
  | form, .assign [name] (.text text) => (c.set? name text).map (·, form)
  | _, _ => none

/-- The configuration that a TOML document describes. -/
def ofToml? (text : String) : Option Config := do
  let statements ← Toml.document? text
  let (config, _) ← statements.foldlM withStatement? ({}, .absent)
  return config

/-- The configuration with what the environment sets. -/
def withEnvironment (c : Config) (env : Environment) : Config :=
  { c with escape := env.escape?.or c.escape, log := env.logFilter?.or c.log }

/-- All characters that end a command. -/
def escapeSet (c : Config) : Except ParseError EscapeSet :=
  EscapeSet.ofSpec (";\n" ++ c.escape.getD "")

/-- The log filter if nothing else is asked for. -/
def defaultLog : String := "warn"

/-- The log filter. -/
def logFilter (c : Config) : String := c.log.getD defaultLog

/-- The variables, where overrides replace what is configured. -/
def variableMap (c : Config) (overrides : List (String × String)) : VariableMap :=
  .ofList (c.vars ++ overrides)

end Config

/-- Why the configuration cannot be used. -/
inductive ConfigError
  | unreadable (path : String) (cause : FileError)
  | invalid (path : String)
  /-- The characters that are to end a command are not all ASCII. -/
  | escape (cause : ParseError)
  deriving DecidableEq, Repr

/-- The wording of a configuration error. -/
def ConfigError.message : ConfigError → String
  | unreadable path cause => s!"cannot read config {path}: {cause.message}"
  | invalid path => s!"invalid config {path}: TOML parse error"
  | escape cause => s!"invalid escape setting: {cause.message}"

/-- The file that a configuration comes from. -/
structure ConfigFile where
  path : String
  /-- Whether the file was asked for, so that it has to exist. -/
  required : Bool
  deriving DecidableEq, Repr

namespace ConfigFile

/-- The file to read: the one asked for on the command line, or the one that the environment names, or
that of the user. -/
def locate (env : Environment) (explicit : Option String) : Option ConfigFile :=
  match explicit.or env.configPath? with
  | some path => some ⟨path, true⟩
  | none => env.defaultConfigPath?.map (⟨·, false⟩)

/-- The configuration in the file, given what reading the file came to. -/
def config (f : ConfigFile) (contents : Except FileError (List UInt8)) :
    Except ConfigError Config :=
  match FileError.textOf contents with
  | .ok text =>
    match Config.ofToml? text with
    | some config => .ok config
    | none => .error (.invalid f.path)
  | .error cause =>
    if cause = .notFound && !f.required then .ok {} else .error (.unreadable f.path cause)

end ConfigFile

end ShellScript.Cli
