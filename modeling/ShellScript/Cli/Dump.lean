import ShellScript.Command
import ShellScript.Json

/-!
# Command dumps

A command as a line of JSON. An object that stands for one of several kinds of things begins with its
kind.
-/

namespace ShellScript.Cli.Dump

open Json

/-- A location. -/
def location (l : Location) : String :=
  object [("filename", string l.filename), ("offset", toString l.position.offset),
    ("line", toString l.line), ("column", toString l.column)]

/-- A separator. -/
def separator : Separator → String
  | .newline => string "newline"
  | .semicolon => string "semicolon"
  | .pipe => string "pipe"
  | .pipePipe => string "pipe_pipe"
  | .other c => object [("other", string c.toString)]

/-- An element of a token. -/
def element : Element → String
  | .literal l =>
    object [("kind", string "literal"), ("text", string l.text), ("origin", location l.origin)]
  | .reference v =>
    object [("kind", string "variable_reference"), ("name", string v.name),
      ("modifier", optional string v.modifier)]
  | .substitution s =>
    object [("kind", string "command_substitution"), ("source", string s.source),
      ("origin", location s.origin)]
  | .separator s => object [("kind", string "separator"), ("separator", separator s)]

/-- A token. -/
def token (t : Token) : String :=
  array (t.elements.map element)

/-- A command as a line. -/
def line (c : Command) : String :=
  object [("tokens", array (c.tokens.map token)), ("terminator", optional separator c.terminator),
    ("location", location c.location)] ++ "\n"

end ShellScript.Cli.Dump
