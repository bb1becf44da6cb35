import ShellScript.Text.Quoted

/-!
# Options

What the arguments of the command line ask for. Arguments are read from left to right. An option may take
its value from the argument after it; whether a value is acceptable is decided only when the next option
is met, so `Reading.settle` does that. Of two mistakes the one that is decided first is reported.
-/

namespace ShellScript.Cli

/-- What can be given on the command line. -/
inductive Parameter
  | script
  | file
  | dump
  | escape
  | config
  | assignment
  deriving DecidableEq, Repr

/-- The name of a parameter in messages. -/
def Parameter.display : Parameter → String
  | script => "-c <SCRIPT>"
  | file => "[FILE]"
  | dump => "--dump"
  | escape => "--escape <CHARS>"
  | config => "--config <PATH>"
  | assignment => "--var <NAME=VALUE>"

/-- Why the command line cannot be used. -/
inductive UsageError
  | unexpectedArgument (argument : String)
  /-- A value for an option that takes none. -/
  | unexpectedValue (value option : String)
  | missingValue (parameter : Parameter)
  | repeated (parameter : Parameter)
  /-- Two parameters that exclude each other, in the order in which they were given. -/
  | conflict (first second : Parameter)
  /-- A variable without a name or a value. -/
  | invalidVariable (text : String)
  deriving DecidableEq, Repr

/-- The wording of a usage error. -/
def UsageError.message : UsageError → String
  | unexpectedArgument argument => s!"unexpected argument '{argument}' found"
  | unexpectedValue value option =>
    s!"unexpected value '{value}' for '{option}' found; no more were expected"
  | missingValue p => s!"a value is required for '{p.display}' but none was supplied"
  | repeated p => s!"the argument '{p.display}' cannot be used multiple times"
  | conflict p q => s!"the argument '{p.display}' cannot be used with '{q.display}'"
  | invalidVariable text =>
    s!"invalid value '{text}' for '{Parameter.assignment.display}': " ++
      "expected NAME=VALUE, got " ++ Text.quoted text

/-- What was asked for. -/
structure Options where
  /-- The text to run. -/
  script : Option String := none
  /-- The file to run. -/
  file : Option String := none
  /-- Whether to print the commands instead of running them. -/
  dump : Bool := false
  escape : Option String := none
  config : Option String := none
  assignments : List (String × String) := []
  deriving DecidableEq, Repr, Inhabited

/-- Why reading arguments ends early. -/
inductive Interrupt
  | help
  | version
  | error (cause : UsageError)
  deriving DecidableEq, Repr

namespace Options

/-- The arguments read so far. -/
structure Reading where
  options : Options := {}
  /-- The parameters that have been settled, in order. -/
  given : List Parameter := []
  /-- The parameter to settle next, and its value if that is known. -/
  pending : Option (Parameter × Option String) := none
  /-- Whether a file has been named. -/
  fileSeen : Bool := false
  /-- Whether the arguments from here on are no options. -/
  positionalOnly : Bool := false
  deriving Repr, Inhabited

/-- A name and a value with an equals sign between them. The name is not empty. -/
def assignment? (text : String) : Option (String × String) :=
  let chars := text.toList
  let name := chars.takeWhile (· ≠ '=')
  match chars.drop name.length with
  | _ :: value => if name.isEmpty then none else some (String.ofList name, String.ofList value)
  | [] => none

/-- The options with the value of one more parameter. A path is not empty. -/
def set (o : Options) (p : Parameter) (value : String) : Except UsageError Options :=
  match p with
  | .script => .ok { o with script := some value }
  | .file => if value.isEmpty then .error (.missingValue p) else .ok { o with file := some value }
  | .dump => .ok { o with dump := true }
  | .escape => .ok { o with escape := some value }
  | .config => if value.isEmpty then .error (.missingValue p) else .ok { o with config := some value }
  | .assignment =>
    match assignment? value with
    | some pair => .ok { o with assignments := o.assignments ++ [pair] }
    | none => .error (.invalidVariable value)

namespace Reading

/-- Fails with a usage error. -/
def refuse {α : Type} (e : UsageError) : Except Interrupt α := .error (.error e)

/-- Takes in a parameter with its value. Only variables may be given more than once. -/
def record (r : Reading) (p : Parameter) (value : String) : Except Interrupt Reading := do
  if p ≠ .assignment && r.given.contains p then refuse (.repeated p)
  let options ← (r.options.set p value).mapError .error
  return { r with options, given := r.given ++ [p] }

/-- Takes in the parameter that is pending. -/
def settle (r : Reading) : Except Interrupt Reading :=
  match r.pending with
  | none => .ok r
  | some (p, none) => refuse (.missingValue p)
  | some (p, some value) => { r with pending := none }.record p value

/-- Takes in an option that takes a value, which stands in the same argument or in the next one. -/
def option (r : Reading) (p : Parameter) (value : Option String) : Except Interrupt Reading := do
  let r ← r.settle
  match value with
  | some value => r.record p value
  | none => return { r with pending := some (p, none) }

/-- Takes in an option that takes no value. -/
def flag (r : Reading) (name : String) (value : Option String)
    (effect : Reading → Except Interrupt Reading) : Except Interrupt Reading := do
  if let some value := value then refuse (.unexpectedValue value name)
  effect (← r.settle)

/-- Takes in an option with a long name. -/
def longOption (r : Reading) (name : String) (value : Option String) : Except Interrupt Reading :=
  match name with
  | "escape" => r.option .escape value
  | "config" => r.option .config value
  | "var" => r.option .assignment value
  | "dump" => r.flag "--dump" value (·.record .dump "")
  | "help" => r.flag "--help" value fun _ => .error .help
  | "version" => r.flag "--version" value fun _ => .error .version
  | _ => refuse (.unexpectedArgument ("--" ++ name))

/-- Takes in an option with a name of one letter, and what follows the letter in the argument: it is
the value, before which an equals sign may stand. -/
def shortOption (r : Reading) (letter : Char) (rest : List Char) : Except Interrupt Reading :=
  match letter with
  | 'c' =>
    r.option .script <| match rest with
      | [] => none
      | '=' :: value => some (String.ofList value)
      | value => some (String.ofList value)
  | 'h' => r.flag "--help" none fun _ => .error .help
  | 'V' => r.flag "--version" none fun _ => .error .version
  | _ => refuse (.unexpectedArgument ("-" ++ letter.toString))

/-- Takes in an argument that is no option. There is room for one file. -/
def positional (r : Reading) (argument : String) : Except Interrupt Reading := do
  if r.fileSeen then refuse (.unexpectedArgument argument)
  let r ← r.settle
  return { r with pending := some (.file, some argument), fileSeen := true }

/-- Takes in an argument that does not look like an option: the value that is waited for, or a file. -/
def plain (r : Reading) (argument : String) : Except Interrupt Reading :=
  match r.pending with
  | some (p, none) => .ok { r with pending := some (p, some argument) }
  | _ => r.positional argument

/-- Takes in an argument. A dash alone does not make an option, and two dashes alone end them. -/
def step (r : Reading) (argument : String) : Except Interrupt Reading :=
  if r.positionalOnly then r.positional argument
  else match argument.toList with
    | ['-', '-'] => .ok { r with positionalOnly := true }
    | '-' :: '-' :: long =>
      let name := long.takeWhile (· ≠ '=')
      r.longOption (String.ofList name) (match long.drop name.length with
        | _ :: value => some (String.ofList value)
        | [] => none)
    | '-' :: letter :: rest => r.shortOption letter rest
    | _ => r.plain argument

/-- The options of arguments that have all been taken in. A script and a file exclude each other. -/
def finish (r : Reading) : Except Interrupt Options := do
  let r ← r.settle
  match r.given.filter fun p => p = .script || p = .file with
  | p :: q :: _ => refuse (.conflict p q)
  | _ => return r.options

end Reading

/-- What the arguments ask for. -/
def parse (arguments : List String) : Except Interrupt Options := do
  Reading.finish (← arguments.foldlM Reading.step {})

end Options

end ShellScript.Cli
