import ShellScript.Token

/-!
# Commands

The words up to a separator that ends a command. The separator is kept apart, so no word of a command
holds one.
-/

namespace ShellScript

/-- A command: its words, the separator that ended it unless the input did, and where its first word
starts. -/
structure Command where
  tokens : List Token
  terminator : Option Separator
  location : Location
  deriving DecidableEq, Repr

namespace Command

/-- A command as a script writes it: the words with a space between them, and the terminator. -/
def toSource (c : Command) : String :=
  String.intercalate " " (c.tokens.map Token.toSource) ++
    (c.terminator.map Separator.toSource).getD ""

end Command

end ShellScript
