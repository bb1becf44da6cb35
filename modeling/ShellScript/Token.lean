import ShellScript.Position
import ShellScript.Quote
import ShellScript.Separator

/-!
# Tokens

A token is a word of a script: an ordered run of elements. Literal elements are text already; variable
references and command substitutions stand for text that is known only when the command runs. A
separator, if there is one, is the last element.

`toSource` writes elements and tokens back as script text. Literals and substitutions remember where
they came from; `unplaced` forgets it, so that two readings of a text can be compared.
-/

namespace ShellScript

/-- Text, and where its source begins: at the opening quote if it was quoted. -/
structure Literal where
  text : String
  origin : Location
  deriving DecidableEq, Repr

/-- A reference to a parameter, with the raw text that stood after the name inside braces. -/
structure VariableRef where
  name : String
  modifier : Option String := none
  deriving DecidableEq, Repr

/-- A command substitution: its script, and where its dollar sign stands. -/
structure CommandSubstitution where
  source : String
  origin : Location
  deriving DecidableEq, Repr

/-- A part of a token. -/
inductive Element
  | literal (literal : Literal)
  | reference (reference : VariableRef)
  | substitution (substitution : CommandSubstitution)
  | separator (separator : Separator)
  deriving DecidableEq, Repr

/-- The text of a reference between the braces. -/
def VariableRef.body (v : VariableRef) : String :=
  v.name ++ v.modifier.getD ""

/-- A reference as a script writes it. -/
def VariableRef.toSource (v : VariableRef) : String :=
  "$\x7b" ++ v.body ++ "\x7d"

namespace Element

/-- An element as a script writes it. -/
def toSource : Element → String
  | literal l => quote l.text
  | reference v => v.toSource
  | substitution s => "$(" ++ s.source ++ ")"
  | separator s => s.toSource

/-- The separator that an element is. -/
def separator? : Element → Option Separator
  | separator s => some s
  | _ => none

/-- An element without its origin. -/
def unplaced : Element → Element
  | literal l => literal { l with origin := default }
  | substitution s => substitution { s with origin := default }
  | e => e

end Element

/-- A word: an ordered run of elements. -/
structure Token where
  elements : List Element := []
  deriving DecidableEq, Repr

namespace Token

/-- Whether a token has no elements. -/
def isEmpty (t : Token) : Bool := t.elements.isEmpty

/-- The number of elements. -/
def length (t : Token) : Nat := t.elements.length

/-- A token with one more element. -/
def push (t : Token) (e : Element) : Token := ⟨t.elements ++ [e]⟩

/-- A token with more elements. -/
def append (t : Token) (es : List Element) : Token := ⟨t.elements ++ es⟩

/-- The token of some elements; `none` if there are none. -/
def ofElements? : List Element → Option Token
  | [] => none
  | es => some ⟨es⟩

/-- The separator that the token ends in. -/
def separator? (t : Token) : Option Separator :=
  t.elements.getLast?.bind Element.separator?

/-- The token without the separator it ends in, and that separator. -/
def splitSeparator (t : Token) : Token × Option Separator :=
  match t.separator? with
  | some s => (⟨t.elements.dropLast⟩, some s)
  | none => (t, none)

/-- A token as a script writes it. -/
def toSource (t : Token) : String :=
  String.join (t.elements.map Element.toSource)

/-- A token without origins. -/
def unplaced (t : Token) : Token := ⟨t.elements.map Element.unplaced⟩

/-- Whether two tokens are equal but for where they come from. -/
def agrees (t u : Token) : Bool := t.unplaced == u.unplaced

end Token

end ShellScript
