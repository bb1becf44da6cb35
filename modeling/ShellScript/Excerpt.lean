import ShellScript.Position

/-!
# Excerpts

The parts of a source text that a message shows with a caret under them: a window around an offset
(`snippet`), and the line of a position (`diagnostic`).
-/

namespace ShellScript.Excerpt

/-- Splits a text before the character that holds the byte at `offset`; at the end if there is none. -/
def splitAtOffset : List Char → Nat → List Char × List Char
  | [], _ => ([], [])
  | c :: rest, offset =>
    if c.utf8Size ≤ offset then
      let (before, after) := splitAtOffset rest (offset - c.utf8Size)
      (c :: before, after)
    else ([], c :: rest)

/-- A caret after as many spaces. -/
def caret (column : Nat) : List Char :=
  List.replicate column ' ' ++ ['^']

/-- The number of values that a machine word has. -/
def wordValues : Nat := UInt64.size

/-- As many characters from the beginning as are asked for. If none is, that is all of them. -/
def firstOrAll (text : List Char) (count : Nat) : List Char :=
  if count = 0 then text else text.take count

/-- The characters around an offset, at most `n` before it and `n + 1` from it on, and below them a
caret. Both numbers are machine words, so one more than the largest word is zero. -/
def snippet (text : String) (offset n : Nat) : String :=
  let (before, after) := splitAtOffset text.toList offset
  let shown := before.drop (before.length - n)
  String.ofList (shown ++ firstOrAll after ((n + 1) % wordValues) ++ '\n' :: caret shown.length)

/-- The snippet where sums of machine words are checked, and a sum that is none is a fault. -/
def snippetChecked? (text : String) (offset n : Nat) : Option String :=
  if n + 1 < wordValues then some (snippet text offset n) else none

/-- A line of a text, counted from zero; empty past the last one. -/
def nthLine : List Char → Nat → List Char
  | text, 0 => text.takeWhile (· ≠ '\n')
  | text, n + 1 =>
    match text.dropWhile (· ≠ '\n') with
    | [] => []
    | _ :: rest => nthLine rest n

/-- A line without the carriage return that may end it. -/
def stripReturn (line : List Char) : List Char :=
  if line.getLast? = some '\r' then line.dropLast else line

/-- The content of a line, counted from one. Line zero is the first line too. -/
def lineContent (text : String) (line : Nat) : String :=
  String.ofList (stripReturn (nthLine text.toList (line - 1)))

/-- A line number at least three columns wide. -/
def lineNumber (n : Nat) : String :=
  String.ofList (List.replicate (3 - (toString n).length) ' ') ++ toString n

/-- A message with the line of its position, and a caret below its column. -/
def diagnostic (text : String) (position : Position) (message : String) : String :=
  s!"error: {message}\n  --> line {position.line}, column {position.column}\n   |\n" ++
  s!"{lineNumber position.line} | {lineContent text position.line}\n" ++
  "   | " ++ String.ofList (caret (position.column - 1))

end ShellScript.Excerpt
