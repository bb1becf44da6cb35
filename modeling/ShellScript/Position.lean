import ShellScript.Text.Utf8

/-!
# Positions

Where something stands in a script: a byte offset from zero, and a line and a column from one. Columns
count characters. A `Location` adds the label of the text that the position belongs to.
-/

namespace ShellScript

/-- A point between two characters of a text. -/
structure Position where
  /-- Bytes before the point. -/
  offset : Nat
  /-- One more than the newlines before the point. -/
  line : Nat
  /-- One more than the characters between the point and the last newline before it. -/
  column : Nat
  deriving DecidableEq, Repr, Inhabited

namespace Position

/-- The point before the first character. -/
def start : Position := ⟨0, 1, 1⟩

/-- The point after a character that took `length` bytes. -/
def afterRune (p : Position) (c : Char) (length : Nat) : Position :=
  if c = '\n' then ⟨p.offset + length, p.line + 1, 1⟩
  else ⟨p.offset + length, p.line, p.column + 1⟩

/-- The point after a byte. A byte that continues a UTF-8 sequence does not move the column, so a text
read byte by byte ends where it ends read character by character. -/
def afterByte (p : Position) (b : UInt8) : Position :=
  if b = 0x0A then ⟨p.offset + 1, p.line + 1, 1⟩
  else if Utf8.isContinuation b then ⟨p.offset + 1, p.line, p.column⟩
  else ⟨p.offset + 1, p.line, p.column + 1⟩

end Position

/-- A position in the text that is labelled `filename`. The label serves messages only. -/
structure Location where
  filename : String
  position : Position
  deriving DecidableEq, Repr, Inhabited

namespace Location

/-- The line of a location. -/
def line (l : Location) : Nat := l.position.line

/-- The column of a location. -/
def column (l : Location) : Nat := l.position.column

/-- A location as messages show it: label, line and column. -/
def display (l : Location) : String :=
  s!"{l.filename}:{l.line}:{l.column}"

end Location

end ShellScript
