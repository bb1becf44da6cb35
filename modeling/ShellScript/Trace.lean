import ShellScript.Command

/-!
# Trace events

What reading and running a script reports on the way. An event carries its data; `level`, `target`,
`message` and `fields` say how a log shows it. A span is a stretch of time in which a command runs.
-/

namespace ShellScript

/-- How important a record is, the most detailed first. -/
inductive Level
  | trace
  | debug
  | info
  | warn
  | error
  deriving DecidableEq, Repr, Inhabited

namespace Level

/-- The place of a level, counted from the most detailed one. -/
def rank : Level → Nat
  | trace => 0
  | debug => 1
  | info => 2
  | warn => 3
  | error => 4

/-- The name of a level in a log. -/
def display : Level → String
  | trace => "TRACE"
  | debug => "DEBUG"
  | info => "INFO"
  | warn => "WARN"
  | error => "ERROR"

end Level

/-- Something that happened. -/
inductive Event
  /-- A double pipe was read, starting at the position. -/
  | pipePair (position : Position)
  /-- A comment was skipped that starts on the line; it may have ended with the input. -/
  | comment (line : Nat) (atEnd : Bool)
  /-- A separator was read with no words before it. -/
  | emptyCommand (separator : Separator)
  /-- A command was read. -/
  | assembled (location : Location) (source : String)
  /-- A command has a name that no builtin is registered under. -/
  | noBuiltin
  deriving DecidableEq, Repr

namespace Event

/-- The level of an event. -/
def level : Event → Level
  | pipePair _ | comment _ _ | emptyCommand _ => .trace
  | assembled _ _ | noBuiltin => .debug

/-- The part of the program that a log filter knows the event by. -/
def target : Event → String
  | pipePair _ | comment _ _ => "gsh_shell::lexer::operators"
  | emptyCommand _ | assembled _ _ => "gsh_shell::parser"
  | noBuiltin => "gsh_shell::exec::session"

/-- The wording of an event. -/
def message : Event → String
  | pipePair _ => "pipe-pipe separator"
  | comment _ _ => "skipped comment"
  | emptyCommand _ => "skipping empty command"
  | assembled _ _ => "assembled command"
  | noBuiltin => "no builtin registered"

/-- The data of an event, by name. -/
def fields : Event → List (String × String)
  | pipePair p => [("line", toString p.line), ("column", toString p.column)]
  | comment line atEnd => [("line", toString line), ("eof", if atEnd then "true" else "false")]
  | emptyCommand s => [("separator", s.display)]
  | assembled location source => [("location", location.display), ("source", source)]
  | noBuiltin => []

end Event

/-- The run of a command. -/
structure Span where
  /-- The name of the command. -/
  name : String
  location : Location
  deriving DecidableEq, Repr

namespace Span

/-- The name of every span in a log. -/
def title : String := "command"

/-- The level of every span. -/
def level : Level := .info

/-- The part of the program that a log filter knows spans by. -/
def target : String := "gsh_shell::exec::session"

/-- The data of a span, by name. -/
def fields (s : Span) : List (String × String) :=
  [("name", s.name), ("location", s.location.display)]

end Span

/-- A line of a log. -/
inductive Record
  /-- An event, with the spans that were open, the outermost first. -/
  | event (event : Event) (within : List Span)
  /-- A span was opened. -/
  | opened (span : Span)
  deriving DecidableEq, Repr

/-- The level of a record. -/
def Record.level : Record → Level
  | event e _ => e.level
  | opened _ => Span.level

end ShellScript
