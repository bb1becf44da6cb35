import ShellScript.Lexer.Body

/-!
# Parameters and substitutions

What a dollar sign introduces: `$name`, `${name…}` and `$(…)`. A parameter name is an identifier, a
single special character, or, inside braces, a run of digits. `splitParameter` finds the name at the
start of a braced body; whatever follows it is the modifier, kept as it is.
-/

namespace ShellScript

/-- The first character of an identifier. -/
def isNameStart (c : Char) : Bool := c.isAlpha || c = '_'

/-- A later character of an identifier. -/
def isNameChar (c : Char) : Bool := c.isAlphanum || c = '_'

/-- A character that is a parameter name by itself. -/
def isSpecialParameter (c : Char) : Bool :=
  c = '?' || c = '$' || c = '#' || c = '@' || c = '*' || c = '!' || c = '-' || c.isDigit

/-- The longest parameter name at the start of a braced body, and the rest. The name is empty if none
starts there. -/
def splitParameter : List Char → List Char × List Char
  | [] => ([], [])
  | c :: rest =>
    if c.isDigit then ((c :: rest).takeWhile Char.isDigit, (c :: rest).dropWhile Char.isDigit)
    else if isSpecialParameter c then ([c], rest)
    else if isNameStart c then (c :: rest.takeWhile isNameChar, rest.dropWhile isNameChar)
    else ([], c :: rest)

/-- Whether a braced body asks for the length of a parameter: `#` and then a name and nothing else. -/
def asksLength : List Char → Bool
  | '#' :: rest => !rest.isEmpty && (splitParameter rest).2.isEmpty
  | _ => false

/-- The reference that a braced body stands for. -/
def VariableRef.ofBody (body : String) (location : Location) : Except ParseError VariableRef :=
  if asksLength body.toList then .error (.unsupported "length expansion" location)
  else match splitParameter body.toList with
    | ([], _) => .error (.badSubstitution ("$\x7b" ++ body ++ "\x7d") location)
    | (name, []) => .ok { name := String.ofList name }
    | (name, modifier) =>
      .ok { name := String.ofList name, modifier := some (String.ofList modifier) }

namespace Lexer

variable {σ : Type} [Input σ]

/-- Reads one more character of an identifier, or puts back the one that is not part of it. -/
def nameStep (name : String) (l : Lexer σ) : Read σ (Progress String String) :=
  match l.nextRune with
  | (.error e, l₁) => (.error e, l₁)
  | (.ok none, l₁) => (.ok (.done name), l₁)
  | (.ok (some c), l₁) =>
    if isNameChar c then (.ok (.more (name.push c)), l₁) else (.ok (.done name), l₁.unreadRune)

/-- A step of a name makes no input: the character behind a name is put back after it was read. -/
theorem size_nameStep_le (name : String) (l : Lexer σ) : (nameStep name l).2.size ≤ l.size := by
  unfold nameStep
  split <;> rename_i h
  · exact size_le_of_eq h (size_nextRune_le l)
  · exact size_le_of_eq h (size_nextRune_le l)
  · split
    · exact Nat.le_of_lt (size_nextRune_lt h)
    · exact size_unreadRune_le h

/-- A name that goes on has taken a character. -/
theorem size_nameStep_lt {name name' : String} {l l' : Lexer σ}
    (h : nameStep name l = (.ok (.more name'), l')) : l'.size < l.size := by
  unfold nameStep at h
  split at h
  · cases h
  · cases h
  · rename_i hr
    split at h <;> cases h
    exact size_nextRune_lt hr

/-- Reads an identifier whose first character was read. -/
def readName (first : Char) (l : Lexer σ) : Read σ String :=
  iterate nameStep size_nameStep_lt first.toString l

/-- A name makes no input. -/
theorem size_readName_le (first : Char) (l : Lexer σ) : (readName first l).2.size ≤ l.size :=
  size_iterate_le size_nameStep_le _ l

/-- Reads a braced expansion after its opening brace. -/
def readBraced (dollar : Position) (l : Lexer σ) : Read σ VariableRef :=
  match l.readBody .braces "`$\x7b`" with
  | (.error e, l₁) => (.error e, l₁)
  | (.ok body, l₁) => (VariableRef.ofBody body (l.place dollar), l₁)

/-- A parameter in braces makes no input. -/
theorem size_readBraced_le (dollar : Position) (l : Lexer σ) :
    (readBraced dollar l).2.size ≤ l.size := by
  have := size_readBody_le .braces "`$\x7b`" l
  unfold readBraced
  split <;> rename_i h <;> rwa [h] at this

/-- Reads the text of a command substitution up to its closing parenthesis. -/
def readSubstitutionBody (origin : Location) (l : Lexer σ) : Read σ CommandSubstitution :=
  match l.readBody .parentheses "`$(`" with
  | (.error e, l₁) => (.error e, l₁)
  | (.ok source, l₁) => (.ok { source, origin }, l₁)

/-- The text of a substitution makes no input. -/
theorem size_readSubstitutionBody_le (origin : Location) (l : Lexer σ) :
    (readSubstitutionBody origin l).2.size ≤ l.size := by
  have hb := size_readBody_le .parentheses "`$(`" l
  unfold readSubstitutionBody
  split <;> rename_i h <;> rwa [h] at hb

/-- Reads a command substitution after its opening parenthesis. A second parenthesis there would make
it an arithmetic expansion. -/
def readSubstitution (dollar : Position) (l : Lexer σ) : Read σ CommandSubstitution :=
  let origin := l.place dollar
  match l.nextRune with
  | (.error e, l₁) => (.error e, l₁)
  | (.ok none, l₁) => l₁.readSubstitutionBody origin
  | (.ok (some c), l₁) =>
    if c = '(' then (.error (.unsupported "arithmetic expansion" origin), l₁)
    else l₁.unreadRune.readSubstitutionBody origin

/-- A substitution makes no input: the character that is looked at is put back after it was read. -/
theorem size_readSubstitution_le (dollar : Position) (l : Lexer σ) :
    (readSubstitution dollar l).2.size ≤ l.size := by
  have hn := size_nextRune_le l
  have hb := size_readSubstitutionBody_le (σ := σ) (l.place dollar)
  unfold readSubstitution
  split
  · rename_i h; rwa [h] at hn
  · rename_i l₁ h
    rw [h] at hn
    exact Nat.le_trans (hb l₁) hn
  · rename_i c l₁ h
    have hu := size_unreadRune_le h
    rw [h] at hn
    split
    · exact hn
    · exact Nat.le_trans (hb l₁.unreadRune) hu

/-- What a dollar sign turned out to be. -/
inductive Expansion
  /-- These elements. -/
  | elements (elements : List Element)
  /-- A plain dollar sign; the character after it is not read. -/
  | bare
  /-- A plain dollar sign at the end of the input. -/
  | atEnd

/-- Reads what the dollar sign at `dollar` introduces, after the character `c` behind it was read. -/
def readExpansion (dollar : Position) (c : Char) (l : Lexer σ) : Read σ Expansion :=
  if c = '{' then
    match l.readBraced dollar with
    | (.error e, l₁) => (.error e, l₁)
    | (.ok v, l₁) => (.ok (.elements [.reference v]), l₁)
  else if c = '(' then
    match l.readSubstitution dollar with
    | (.error e, l₁) => (.error e, l₁)
    | (.ok s, l₁) => (.ok (.elements [.substitution s]), l₁)
  else if isNameStart c then
    match l.readName c with
    | (.error e, l₁) => (.error e, l₁)
    | (.ok name, l₁) => (.ok (.elements [.reference { name }]), l₁)
  else if isSpecialParameter c then (.ok (.elements [.reference { name := c.toString }]), l)
  else (.ok .bare, l.unreadRune)

/-- What a dollar sign introduces leaves no more than there was before the character behind it, which may be
put back. -/
theorem size_readExpansion_le (dollar : Position) {c : Char} {l l₁ : Lexer σ}
    (h : l.nextRune = (.ok (some c), l₁)) : (readExpansion dollar c l₁).2.size ≤ l.size := by
  have hl := Nat.le_of_lt (size_nextRune_lt h)
  unfold readExpansion
  split
  · have := size_readBraced_le dollar l₁
    split <;> rename_i h' <;> rw [h'] at this <;> exact Nat.le_trans this hl
  · split
    · have := size_readSubstitution_le dollar l₁
      split <;> rename_i h' <;> rw [h'] at this <;> exact Nat.le_trans this hl
    · split
      · have := size_readName_le c l₁
        split <;> rename_i h' <;> rw [h'] at this <;> exact Nat.le_trans this hl
      · split
        · exact hl
        · exact size_unreadRune_le h

/-- Reads what a dollar sign inside double quotes introduces. Quotes after it are not special there. -/
def readInnerDollar (dollar : Position) (l : Lexer σ) : Read σ Expansion :=
  match l.nextRune with
  | (.error e, l₁) => (.error e, l₁)
  | (.ok none, l₁) => (.ok .atEnd, l₁)
  | (.ok (some c), l₁) => l₁.readExpansion dollar c

/-- A dollar sign between double quotes makes no input. -/
theorem size_readInnerDollar_le (dollar : Position) (l : Lexer σ) :
    (readInnerDollar dollar l).2.size ≤ l.size := by
  have hn := size_nextRune_le l
  unfold readInnerDollar
  split <;> rename_i h
  · rwa [h] at hn
  · rwa [h] at hn
  · exact size_readExpansion_le dollar h

end Lexer

end ShellScript
