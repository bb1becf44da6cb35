import ShellScript.Parser

/-!
# Relocation

The same text can stand at two places. What is read from it then differs in positions only, and a
`Relocation` says how: it maps positions, and everything that holds positions along with them. Texts,
names and separators stay as they are, so what is written back as source does too.
-/

namespace ShellScript

/-- A change of positions in which the new line depends on the old line alone. -/
structure Relocation where
  position : Position → Position
  line : Nat → Nat
  line_position : ∀ p, (position p).line = line p.line

namespace Relocation

/-- Nothing moves. -/
def same : Relocation := ⟨id, id, fun _ => rfl⟩

/-- A text moves behind another one, which ends at `origin`. Columns move on the first line only. -/
def after (origin : Position) : Relocation where
  position p :=
    ⟨p.offset + origin.offset, p.line + origin.line - 1,
      if p.line = 1 then p.column + origin.column - 1 else p.column⟩
  line n := n + origin.line - 1
  line_position _ := rfl

variable (φ : Relocation)

def location (l : Location) : Location := { l with position := φ.position l.position }

def literal (l : Literal) : Literal := { l with origin := φ.location l.origin }

def substitution (s : CommandSubstitution) : CommandSubstitution :=
  { s with origin := φ.location s.origin }

def element : Element → Element
  | .literal l => .literal (φ.literal l)
  | .reference v => .reference v
  | .substitution s => .substitution (φ.substitution s)
  | .separator s => .separator s

def token (t : Token) : Token := ⟨t.elements.map φ.element⟩

def command (c : Command) : Command :=
  { c with tokens := c.tokens.map φ.token, location := φ.location c.location }

def error : ParseError → ParseError
  | .unterminatedQuote quote l => .unterminatedQuote quote (φ.location l)
  | .unexpectedEof construct l => .unexpectedEof construct (φ.location l)
  | .unexpectedToken token l => .unexpectedToken token (φ.location l)
  | .invalidEscapeSpecification spec => .invalidEscapeSpecification spec
  | .unsupported feature l => .unsupported feature (φ.location l)
  | .badSubstitution text l => .badSubstitution text (φ.location l)
  | .read message l => .read message (φ.location l)

/-- An item of the iteration over a script. -/
def item : Except ParseError Command → Except ParseError Command
  | .ok c => .ok (φ.command c)
  | .error e => .error (φ.error e)

def event : Event → Event
  | .pipePair p => .pipePair (φ.position p)
  | .comment n atEnd => .comment (φ.line n) atEnd
  | .emptyCommand s => .emptyCommand s
  | .assembled l source => .assembled (φ.location l) source
  | .noBuiltin => .noBuiltin

/-! ## What does not move -/

/-- A literal remembers where it began. -/
@[simp] theorem element_literal (l : Literal) : φ.element (.literal l) = .literal (φ.literal l) := rfl

/-- A reference remembers no place. -/
@[simp] theorem element_reference (v : VariableRef) :
    φ.element (.reference v) = .reference v := rfl

/-- A substitution remembers its dollar sign. -/
@[simp] theorem element_substitution (s : CommandSubstitution) :
    φ.element (.substitution s) = .substitution (φ.substitution s) := rfl

/-- A separator remembers no place. -/
@[simp] theorem element_separator (s : Separator) : φ.element (.separator s) = .separator s := rfl

/-- A separator that moved is the same one, and nothing else has become one. -/
@[simp] theorem separator?_element (e : Element) : (φ.element e).separator? = e.separator? := by
  cases e <;> rfl

/-- Written back, an element looks the same wherever it came from. -/
@[simp] theorem toSource_element (e : Element) : (φ.element e).toSource = e.toSource := by
  cases e <;> rfl

/-- Moving adds no elements and drops none. -/
@[simp] theorem isEmpty_token (t : Token) : (φ.token t).isEmpty = t.isEmpty := by
  simp [Token.isEmpty, token]

/-- Written back, a token looks the same wherever it came from. -/
@[simp] theorem toSource_token (t : Token) : (φ.token t).toSource = t.toSource := by
  simp [Token.toSource, token, Function.comp_def]

/-- A token ends in the same separator after it moved. -/
@[simp] theorem separator?_token (t : Token) : (φ.token t).separator? = t.separator? := by
  simp only [Token.separator?, token, List.getLast?_map]
  cases t.elements.getLast? <;> simp

/-- Splitting the separator off a token that moved leaves the rest of it, moved. -/
theorem splitSeparator_token (t : Token) :
    (φ.token t).splitSeparator = (φ.token t.splitSeparator.1, t.splitSeparator.2) := by
  unfold Token.splitSeparator
  rw [separator?_token]
  cases t.separator? <;> simp [token, List.map_dropLast]

/-- A command that moved is written back as it was. -/
@[simp] theorem toSource_command (c : Command) : (φ.command c).toSource = c.toSource := by
  simp [Command.toSource, command, Function.comp_def]

/-! ## When nothing moves at all -/

/-- Where nothing moves, positions stay. -/
@[simp] theorem same_position (p : Position) : same.position p = p := rfl

/-- An element keeps its origin where nothing moves. -/
@[simp] theorem same_element (e : Element) : same.element e = e := by cases e <;> rfl

/-- So do the elements of a token. -/
@[simp] theorem same_token (t : Token) : same.token t = t := by
  simp [token, funext same_element]

/-- A command keeps the place where it begins. -/
@[simp] theorem same_command (c : Command) : same.command c = c := by
  have : same.token = id := funext same_token
  simp only [command, this, List.map_id_fun, id_eq]
  rfl

/-- An error keeps its place. -/
@[simp] theorem same_error (e : ParseError) : same.error e = e := by cases e <;> rfl

/-- Whatever an iteration yields stays the same where nothing moves. -/
@[simp] theorem same_item (i : Except ParseError Command) : same.item i = i := by
  cases i <;> simp [item]

/-- An event of the journal stays the same. -/
@[simp] theorem same_event (e : Event) : same.event e = e := by cases e <;> rfl

end Relocation

end ShellScript
