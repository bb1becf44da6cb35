/-!
# Separators

What ends a word and is more than a blank: the newline, the semicolon, the two pipes, and any character
that the reader of a script chose to end commands with.
-/

namespace ShellScript

/-- A separator that ended a word. -/
inductive Separator
  | newline
  | semicolon
  | pipe
  | pipePipe
  /-- A character of the active escape set. -/
  | other (c : Char)
  deriving DecidableEq, Repr, Inhabited

namespace Separator

/-- The text that a separator is written as. -/
def toSource : Separator → String
  | newline => "\n"
  | semicolon => ";"
  | pipe => "|"
  | pipePipe => "||"
  | other c => c.toString

/-- Whether the separator ends the command. The pipes join it to another one. -/
def endsCommand : Separator → Bool
  | pipe | pipePipe => false
  | _ => true

/-- A separator as messages show it. -/
def display : Separator → String
  | newline => "newline"
  | s => "'" ++ s.toSource ++ "'"

/-- The separator that a character is, whatever the escape set. A single `|` may turn out to be the
first half of `||`. -/
def fixed? : Char → Option Separator
  | '\n' => some newline
  | ';' => some semicolon
  | '|' => some pipe
  | _ => none

end Separator

end ShellScript
