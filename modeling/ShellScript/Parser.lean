import ShellScript.Input.Cursor
import ShellScript.Lexer.Word

/-!
# Parsers

A parser groups tokens into commands, one at a time. Separators without words before them are skipped.
A read that fails leaves the parser usable, but iterating over it (`next`) is over after the first
error. `items` lists what the iteration yields; a command takes at least one byte
(`size_readCommand_lt`), so the list ends.
-/

namespace ShellScript

/-- The words of a command so far, and where the first one starts. -/
structure Assembly where
  words : List Token := []
  start : Option Location := none
  deriving DecidableEq, Repr

/-- The assembly with another word, which starts at a location. An empty word is none. -/
def Assembly.add (a : Assembly) (word : Token) (start : Location) : Assembly :=
  if word.isEmpty then a
  else { words := a.words ++ [word], start := some (a.start.getD start) }

namespace Lexer

variable {σ : Type} [Input σ]

/-- Makes a command of the words, which the terminator ended. -/
def finishCommand (a : Assembly) (terminator : Option Separator) (l : Lexer σ) :
    Read σ (Progress Assembly (Option Command)) :=
  let command : Command := ⟨a.words, terminator, a.start.getD l.startLocation⟩
  (.ok (.done (some command)), l.note (.assembled command.location command.toSource))

/-- Adds the next token to a command, and ends the command if the token does. -/
def commandStep (escape : EscapeSet) (a : Assembly) (l : Lexer σ) :
    Read σ (Progress Assembly (Option Command)) :=
  match l.readToken escape (!a.words.isEmpty) with
  | (.error e, l₁) => (.error e, l₁)
  | (.ok none, l₁) =>
    if a.words.isEmpty then (.ok (.done none), l₁) else l₁.finishCommand a none
  | (.ok (some token), l₁) =>
    let (word, separator?) := token.splitSeparator
    let a := a.add word l₁.startLocation
    match separator? with
    | none => (.ok (.more a), l₁)
    | some s =>
      if !s.endsCommand then (.error (.unsupported "pipelines" l₁.location), l₁)
      else if a.words.isEmpty then (.ok (.more a), l₁.note (.emptyCommand s))
      else l₁.finishCommand a (some s)

/-- A step of a command makes no input. -/
theorem size_commandStep_le (escape : EscapeSet) (a : Assembly) (l : Lexer σ) :
    (commandStep escape a l).2.size ≤ l.size := by
  unfold commandStep
  split
  · rename_i h; exact size_le_of_eq h (size_readToken_le escape _ l)
  · rename_i h
    have := size_le_of_eq h (size_readToken_le escape _ l)
    split <;> exact this
  · rename_i h
    have := size_le_of_eq h (size_readToken_le escape _ l)
    dsimp only
    split
    · exact this
    · split
      · exact this
      · split <;> exact this

/-- A step of a command that wants more has read a token, and that takes a byte. -/
theorem size_commandStep_lt {escape : EscapeSet} {a a' : Assembly} {l l' : Lexer σ}
    (h : commandStep escape a l = (.ok (.more a'), l')) : l'.size < l.size := by
  unfold commandStep at h
  split at h
  · cases h
  · split at h <;> cases h
  · rename_i ht
    have := size_readToken_lt ht
    dsimp only at h
    split at h
    · cases h; exact this
    · split at h
      · cases h
      · split at h <;> cases h
        exact this

/-- Reads the next command; `none` if the input holds no other one. -/
def readCommand (escape : EscapeSet) (l : Lexer σ) : Read σ (Option Command) :=
  iterate (commandStep escape) size_commandStep_lt {} l

/-- A command takes at least one byte. -/
theorem size_readCommand_lt {escape : EscapeSet} {l l' : Lexer σ} {c : Command}
    (h : readCommand escape l = (.ok (some c), l')) : l'.size < l.size := by
  unfold readCommand at h
  rw [iterate_eq] at h
  split at h
  · cases h
  · rename_i hs
    cases h
    unfold commandStep at hs
    split at hs
    · cases hs
    · simp at hs
    · rename_i ht
      have := size_readToken_lt ht
      dsimp only at hs
      split at hs
      · cases hs
      · split at hs
        · cases hs
        · split at hs <;> cases hs
          exact this
  · rename_i hs
    exact Nat.lt_of_le_of_lt
      (size_le_of_eq h (size_iterate_le (size_commandStep_le escape) _ _)) (size_commandStep_lt hs)

end Lexer

/-- A reader of commands. -/
structure Parser (σ : Type) where
  lexer : Lexer σ
  /-- What ends a command, for reads that do not say. -/
  escape : EscapeSet := .default
  /-- Whether the latest read failed. -/
  failed : Bool := false

namespace Parser

variable {σ : Type} [Input σ]

/-- A parser before the first character of an input. -/
def ofInput (input : σ) (filename : String) (escape : EscapeSet := .default) : Parser σ :=
  { lexer := .ofInput input filename, escape }

/-- The number of bytes not yet read. -/
def size (p : Parser σ) : Nat := p.lexer.size

/-- Reads the next command with an escape set; `none` if the input holds no other one. -/
def readCommandWith (escape : EscapeSet) (p : Parser σ) :
    Except ParseError (Option Command) × Parser σ :=
  match p.lexer.readCommand escape with
  | (.ok command?, lexer) => (.ok command?, { p with lexer, failed := false })
  | (.error e, lexer) => (.error e, { p with lexer, failed := true })

/-- Reads the next command with the escape set of the parser. -/
def readCommand (p : Parser σ) : Except ParseError (Option Command) × Parser σ :=
  p.readCommandWith p.escape

/-- The next item of the iteration over the commands, which an error ends. -/
def next (p : Parser σ) : Option (Except ParseError Command) × Parser σ :=
  if p.failed then (none, p)
  else match p.readCommand with
    | (.ok none, p₁) => (none, p₁)
    | (.ok (some command), p₁) => (some (.ok command), p₁)
    | (.error e, p₁) => (some (.error e), p₁)

/-- A command takes at least one byte, whether or not the parser has failed before. -/
theorem size_readCommand_lt {p p' : Parser σ} {c : Command}
    (h : p.readCommand = (.ok (some c), p')) : p'.size < p.size := by
  unfold readCommand readCommandWith at h
  split at h <;> cases h
  rename_i hr
  exact Lexer.size_readCommand_lt hr

/-- So does a command that the iteration yields, which is why it comes to an end. -/
theorem size_next_lt {p p' : Parser σ} {c : Command} (h : p.next = (some (.ok c), p')) :
    p'.size < p.size := by
  unfold next at h
  split at h
  · cases h
  · split at h <;> cases h
    rename_i hr
    exact size_readCommand_lt hr

/-- All that the iteration yields, and the parser at its end. -/
def items (p : Parser σ) : List (Except ParseError Command) × Parser σ :=
  match _h : p.next with
  | (none, p₁) => ([], p₁)
  | (some (.error e), p₁) => ([.error e], p₁)
  | (some (.ok command), p₁) =>
    let (rest, p₂) := p₁.items
    (.ok command :: rest, p₂)
termination_by p.size
decreasing_by exact size_next_lt _h

/-- The commands of an iteration, or the error that ended it. -/
def collect (p : Parser σ) : Except ParseError (List Command) × Parser σ :=
  let (items, p) := p.items
  (items.mapM id, p)

/-- What happened since the journal was last taken, in order, and the parser with an empty one. -/
def takeJournal (p : Parser σ) : List Event × Parser σ :=
  (p.lexer.journal.reverse, { p with lexer := { p.lexer with journal := [] } })

/-- Taking the journal reads nothing. -/
@[simp] theorem size_takeJournal (p : Parser σ) : p.takeJournal.2.size = p.size := rfl

end Parser

/-- All commands of an input. -/
def parseAll {σ : Type} [Input σ] (input : σ) (filename : String) :
    Except ParseError (List Command) :=
  (Parser.ofInput input filename).collect.1

/-- All commands of a text. -/
def parseString (text filename : String) : Except ParseError (List Command) :=
  parseAll (Cursor.ofString text) filename

/-- The commands of a substitution. Their positions count from the start of its source. -/
def CommandSubstitution.commands (s : CommandSubstitution) : Except ParseError (List Command) :=
  parseString s.source s.origin.filename

end ShellScript
