import ShellScript.Toml.Text

/-!
# TOML statements

A document is a list of statements: a key gets a value, or a header opens a table. Values are texts and
flat inline tables of texts. A configuration has no use for other values, so a document that holds one
is refused.
-/

namespace ShellScript.Toml

/-- A key as it is written: one name, or several with dots between them. -/
abbrev Key := List String

/-- A value. -/
inductive Value
  | text (text : String)
  | table (entries : List (Key × String))
  deriving DecidableEq, Repr

/-- A statement of a document. -/
inductive Statement
  | assign (key : Key) (value : Value)
  | header (key : Key)
  deriving DecidableEq, Repr

/-- What follows the blanks at the start. -/
def skipBlanks (input : List Char) : List Char := input.dropWhile isBlank

/-- A character of a key without quotes. -/
def isBareKeyChar (c : Char) : Bool := c.isAlphanum || c = '_' || c = '-'

/-- Reads one name of a key. -/
def name? (input : List Char) : Option (String × List Char) :=
  match input with
  | '"' :: rest => basicString rest []
  | '\'' :: rest => literalString rest
  | _ =>
    match input.takeWhile isBareKeyChar with
    | [] => none
    | name => some (String.ofList name, input.dropWhile isBareKeyChar)

/-- Reads a key, with the blanks around its names. A key has no more names than `limit`. -/
def key? : (limit : Nat) → List Char → Option (Key × List Char)
  | 0, _ => none
  | limit + 1, input => do
    let (name, rest) ← name? (skipBlanks input)
    match skipBlanks rest with
    | '.' :: rest =>
      let (names, rest) ← key? limit rest
      return (name :: names, rest)
    | rest => return ([name], rest)

/-- Reads a key, the equals sign after it, and the blanks after that. -/
def keyAndEquals? (input : List Char) : Option (Key × List Char) := do
  let (key, rest) ← key? (input.length + 1) input
  match rest with
  | '=' :: rest => return (key, skipBlanks rest)
  | _ => none

/-- Reads the entries of an inline table up to its closing brace, which follows the last entry without
a comma. -/
def entries? : (limit : Nat) → List Char → Option (List (Key × String) × List Char)
  | 0, _ => none
  | limit + 1, input => do
    let (key, rest) ← keyAndEquals? input
    let (text, rest) ← string? rest
    match skipBlanks rest with
    | ',' :: rest =>
      let (entries, rest) ← entries? limit rest
      return ((key, text) :: entries, rest)
    | '\x7d' :: rest => return ([(key, text)], rest)
    | _ => none

/-- Reads a value. -/
def value? (input : List Char) : Option (Value × List Char) :=
  match input with
  | '\x7b' :: rest =>
    match skipBlanks rest with
    | '\x7d' :: rest => some (.table [], rest)
    | rest => (entries? (rest.length + 1) rest).map fun (entries, rest) => (.table entries, rest)
  | _ => (string? input).map fun (text, rest) => (.text text, rest)

/-- What follows the end of a line, before which only blanks and a comment may stand. -/
def lineEnd? (input : List Char) : Option (List Char) :=
  let rest := skipBlanks input
  let rest := if rest.head? = some '#' then rest.dropWhile isText else rest
  match rest with
  | [] => some []
  | '\n' :: rest => some rest
  | _ => none

/-- Reads a statement and the line end after it. -/
def statement? (input : List Char) : Option (Statement × List Char) :=
  match input with
  | '[' :: rest => do
    let (key, rest) ← key? (rest.length + 1) rest
    match rest with
    | ']' :: rest => return (.header key, ← lineEnd? rest)
    | _ => none
  | _ => do
    let (key, rest) ← keyAndEquals? input
    let (value, rest) ← value? rest
    return (.assign key value, ← lineEnd? rest)

/-- Reads all statements. A document has no more lines than `limit`. -/
def statements? : (limit : Nat) → List Char → Option (List Statement)
  | 0, _ => none
  | limit + 1, input =>
    match skipBlanks input with
    | [] => some []
    | '\n' :: rest => statements? limit rest
    | '#' :: rest => do statements? limit (← lineEnd? ('#' :: rest))
    | rest => do
      let (statement, rest) ← statement? rest
      return statement :: (← statements? limit rest)

/-- The statements of a document; `none` if it is not one. A byte order mark may start it. -/
def document? (text : String) : Option (List Statement) :=
  let chars := match text.toList with
    | '\uFEFF' :: rest => rest
    | chars => chars
  let chars := unifyNewlines chars
  statements? (chars.length + 1) chars

end ShellScript.Toml
