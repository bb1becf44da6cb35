import ShellScript.Lexer.Basic

/-!
# Balanced bodies

The body of `$(…)` or `${…}` is the text up to the bracket that closes it. Brackets of the same kind
nest; a bracket inside quotes or after a backslash does not count. `Nesting` is what has to be known of
the text read so far to tell.
-/

namespace ShellScript

/-- A pair of brackets. -/
structure Brackets where
  opening : Char
  closing : Char
  deriving DecidableEq, Repr

/-- The brackets of a command substitution. -/
def Brackets.parentheses : Brackets := ⟨'(', ')'⟩

/-- The brackets of a parameter expansion. -/
def Brackets.braces : Brackets := ⟨'{', '}'⟩

/-- The quotes that a body is in. -/
inductive Quoting
  | bare
  | single
  | double
  deriving DecidableEq, Repr

/-- Where a body stands. -/
structure Nesting where
  /-- How many brackets are open beside the outer one. -/
  depth : Nat := 0
  quoting : Quoting := .bare
  /-- Whether the character before was a backslash that takes the next one's meaning away. -/
  escaped : Bool := false
  deriving DecidableEq, Repr

/-- Where the body stands after another character; `none` if that character closes it. -/
def Nesting.feed (pair : Brackets) (n : Nesting) (c : Char) : Option Nesting :=
  if n.escaped then some { n with escaped := false }
  else match n.quoting with
    | .single => some (if c = '\'' then { n with quoting := .bare } else n)
    | .double =>
      some (if c = '\\' then { n with escaped := true }
        else if c = '"' then { n with quoting := .bare }
        else n)
    | .bare =>
      if c = '\\' then some { n with escaped := true }
      else if c = '\'' then some { n with quoting := .single }
      else if c = '"' then some { n with quoting := .double }
      else if c = pair.opening then some { n with depth := n.depth + 1 }
      else if c = pair.closing then
        match n.depth with
        | 0 => none
        | depth + 1 => some { n with depth }
      else some n

namespace Lexer

variable {σ : Type} [Input σ]

/-- Reads one more character of a body. -/
def bodyStep (pair : Brackets) (construct : String) (state : Nesting × String) (l : Lexer σ) :
    Read σ (Progress (Nesting × String) String) :=
  match l.nextRune with
  | (.error e, l₁) => (.error e, l₁)
  | (.ok none, l₁) => (.error (.unexpectedEof construct l₁.location), l₁)
  | (.ok (some c), l₁) =>
    match state.1.feed pair c with
    | none => (.ok (.done state.2), l₁)
    | some nesting => (.ok (.more (nesting, state.2.push c)), l₁)

/-- A step of a body makes no input. -/
theorem size_bodyStep_le (pair : Brackets) (construct : String) (state : Nesting × String)
    (l : Lexer σ) : (bodyStep pair construct state l).2.size ≤ l.size := by
  unfold bodyStep
  split <;> rename_i h
  · exact size_le_of_eq h (size_nextRune_le l)
  · exact size_le_of_eq h (size_nextRune_le l)
  · split <;> exact Nat.le_of_lt (size_nextRune_lt h)

/-- A body that goes on has taken a character. -/
theorem size_bodyStep_lt {pair : Brackets} {construct : String} {state state' : Nesting × String}
    {l l' : Lexer σ} (h : bodyStep pair construct state l = (.ok (.more state'), l')) :
    l'.size < l.size := by
  unfold bodyStep at h
  split at h
  · cases h
  · cases h
  · rename_i hr
    split at h <;> cases h
    exact size_nextRune_lt hr

/-- Reads a body to the bracket that closes it. That bracket is read and not part of the answer. -/
def readBody (pair : Brackets) (construct : String) (l : Lexer σ) : Read σ String :=
  iterate (bodyStep pair construct) size_bodyStep_lt ({}, "") l

/-- A body makes no input, even where its bracket is missing. -/
theorem size_readBody_le (pair : Brackets) (construct : String) (l : Lexer σ) :
    (readBody pair construct l).2.size ≤ l.size :=
  size_iterate_le (size_bodyStep_le pair construct) _ l

end Lexer

end ShellScript
