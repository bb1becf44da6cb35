import ShellScript.Excerpt
import ShellScript.Text.Quoted

/-!
# Parse errors

Why a script cannot be read. Each cause is a constructor; `message` is the one place that holds their
wording.
-/

namespace ShellScript

/-- The kinds of quotes. -/
inductive QuoteKind
  | single
  | double
  /-- A dollar sign and single quotes. -/
  | ansiC
  deriving DecidableEq, Repr, Inhabited

/-- The name of a kind of quotes in messages. -/
def QuoteKind.display : QuoteKind → String
  | single => "single-quoted"
  | double => "double-quoted"
  | ansiC => "$'...'"

/-- Why reading a word or a command stopped. -/
inductive ParseError
  /-- A quote is open at the end of the input. The location is that of the opening quote. -/
  | unterminatedQuote (quote : QuoteKind) (location : Location)
  /-- The input ends inside a construct that needs more. -/
  | unexpectedEof (construct : String) (location : Location)
  /-- A separator or metacharacter stands where none may. -/
  | unexpectedToken (token : String) (location : Location)
  /-- An escape set was asked for that is not ASCII. -/
  | invalidEscapeSpecification (spec : String)
  /-- Syntax that is recognised and not offered. -/
  | unsupported (feature : String) (location : Location)
  /-- A braced expansion that names no parameter. -/
  | badSubstitution (text : String) (location : Location)
  /-- The input failed. -/
  | read (message : String) (location : Location)
  deriving DecidableEq, Repr, Inhabited

namespace ParseError

/-- Where the error is, if it is in a text. -/
def location? : ParseError → Option Location
  | unterminatedQuote _ l | unexpectedEof _ l | unexpectedToken _ l | unsupported _ l
  | badSubstitution _ l | read _ l => some l
  | invalidEscapeSpecification _ => none

/-- The wording of an error. -/
def message : ParseError → String
  | unterminatedQuote quote l =>
    s!"{l.display}: unexpected end of input: unterminated {quote.display} string"
  | unexpectedEof construct l => s!"{l.display}: unexpected end of input after {construct}"
  | unexpectedToken token l => s!"{l.display}: syntax error near unexpected token `{token}'"
  | invalidEscapeSpecification spec =>
    "invalid escape characters requested: " ++ Text.quoted spec
  | unsupported feature l => s!"{l.display}: {feature} is not supported"
  | badSubstitution text l => s!"{l.display}: bad substitution: {text}"
  | read message l => s!"{l.display}: read error: {message}"

/-- The characters around the error, `n` before it. -/
def context? (e : ParseError) (source : String) (n : Nat) : Option String :=
  e.location?.map fun l => Excerpt.snippet source l.position.offset n

/-- The message with the line that the error is on. -/
def diagnostic? (e : ParseError) (source : String) : Option String :=
  e.location?.map fun l => Excerpt.diagnostic source l.position e.message

end ParseError

end ShellScript
