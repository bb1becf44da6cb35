/-!
# TOML strings

The four kinds of strings: basic ones with escapes and literal ones without, each on one line or over
several. A reader takes the characters after the opening quotes and answers the text together with what
follows the closing quotes. Line ends are newlines here; `unifyNewlines` makes them so.
-/

namespace ShellScript.Toml

/-- The text with a newline for each carriage return and newline. -/
def unifyNewlines : List Char → List Char
  | [] => []
  | '\r' :: '\n' :: rest => '\n' :: unifyNewlines rest
  | c :: rest => c :: unifyNewlines rest

/-- A space or a tab. -/
def isBlank (c : Char) : Bool := c = ' ' || c = '\t'

/-- A character that may stand as it is in comments and strings: no control character but the tab. -/
def isText (c : Char) : Bool := c = '\t' || (0x20 ≤ c.toNat && c.toNat ≠ 0x7F)

/-- The characters that a single-letter escape stands for. -/
def escapeLetter? : Char → Option Char
  | 'b' => some '\x08'
  | 't' => some '\t'
  | 'n' => some '\n'
  | 'f' => some '\x0c'
  | 'r' => some '\r'
  | '"' => some '"'
  | '\\' => some '\\'
  | _ => none

/-- The value of a hexadecimal digit. -/
def hexDigit? (c : Char) : Option Nat :=
  if c.isDigit then some (c.toNat - 48)
  else if 'a' ≤ c && c ≤ 'f' then some (c.toNat - 87)
  else if 'A' ≤ c && c ≤ 'F' then some (c.toNat - 55)
  else none

/-- The character with the code point that hexadecimal digits write. -/
def ofHexDigits? (digits : List Char) : Option Char := do
  let code ← digits.foldlM (fun value c => (hexDigit? c).map (value * 16 + ·)) 0
  if code.isValidChar then some (Char.ofNat code) else none

/-- The escape after a backslash: the character, and what follows. -/
def escape? : List Char → Option (Char × List Char)
  | 'u' :: rest =>
    if rest.length < 4 then none else (ofHexDigits? (rest.take 4)).map (·, rest.drop 4)
  | 'U' :: rest =>
    if rest.length < 8 then none else (ofHexDigits? (rest.take 8)).map (·, rest.drop 8)
  | c :: rest => (escapeLetter? c).map (·, rest)
  | [] => none

/-- An escape is at least one character long. -/
theorem length_escape?_lt {input rest : List Char} {c : Char} (h : escape? input = some (c, rest)) :
    rest.length < input.length := by
  unfold escape? at h
  split at h
  · split at h
    · cases h
    · obtain ⟨_, _, hr⟩ := Option.map_eq_some_iff.mp h
      cases hr
      simp only [List.length_drop, List.length_cons]
      omega
  · split at h
    · cases h
    · obtain ⟨_, _, hr⟩ := Option.map_eq_some_iff.mp h
      cases hr
      simp only [List.length_drop, List.length_cons]
      omega
  · obtain ⟨_, _, hr⟩ := Option.map_eq_some_iff.mp h
    cases hr
    simp
  · cases h

/-- Reads a basic string on one line, after `text` of it in reverse. -/
def basicString (input text : List Char) : Option (String × List Char) :=
  match input with
  | [] => none
  | '"' :: rest => some (String.ofList text.reverse, rest)
  | '\\' :: rest =>
    match _h : escape? rest with
    | some (c, rest') => basicString rest' (c :: text)
    | none => none
  | c :: rest => if isText c then basicString rest (c :: text) else none
termination_by input.length
decreasing_by
  · have := length_escape?_lt _h
    simp only [List.length_cons]
    omega
  · simp

/-- Reads a literal string on one line. -/
def literalString (input : List Char) : Option (String × List Char) :=
  let text := input.takeWhile fun c => isText c && c ≠ '\''
  match input.drop text.length with
  | '\'' :: rest => some (String.ofList text, rest)
  | _ => none

/-- How long a run of a quote at the start is, and whether it closes a string over several lines. Three
close it; up to two more before those three belong to the text. -/
def closingQuotes (quote : Char) (input : List Char) : Option Nat :=
  let n := (input.takeWhile (· = quote)).length
  if n < 3 then none else some (min (n - 3) 2)

/-- What follows a backslash that ends a line: everything up to the next character that is no blank and
no newline. -/
def afterLineEnd? (input : List Char) : Option (List Char) :=
  match input.dropWhile isBlank with
  | '\n' :: rest => some (rest.dropWhile fun c => isBlank c || c = '\n')
  | _ => none

/-- What stands behind the end of a line is a part of what is left. -/
theorem length_afterLineEnd?_le {input rest : List Char} (h : afterLineEnd? input = some rest) :
    rest.length ≤ input.length := by
  have hl := (List.dropWhile_suffix (l := input) isBlank).length_le
  unfold afterLineEnd? at h
  split at h
  · rename_i tail ht
    cases h
    rw [ht, List.length_cons] at hl
    have := (List.dropWhile_suffix (l := tail) fun c => isBlank c || c = '\n').length_le
    omega
  · cases h

/-- Reads a basic string over several lines, after `text` of it in reverse. -/
def longBasicString (input text : List Char) : Option (String × List Char) :=
  match input with
  | [] => none
  | c :: rest =>
    match closingQuotes '"' (c :: rest) with
    | some extra =>
      some (String.ofList (List.replicate extra '"' ++ text).reverse, (c :: rest).drop (extra + 3))
    | none =>
      if c = '\\' then
        match _hl : afterLineEnd? rest with
        | some rest' => longBasicString rest' text
        | none =>
          match _he : escape? rest with
          | some (d, rest') => longBasicString rest' (d :: text)
          | none => none
      else if isText c || c = '\n' then longBasicString rest (c :: text)
      else none
termination_by input.length
decreasing_by
  · have := length_afterLineEnd?_le _hl
    simp only [List.length_cons]
    omega
  · have := length_escape?_lt _he
    simp only [List.length_cons]
    omega
  · simp

/-- Reads a literal string over several lines, after `text` of it in reverse. -/
def longLiteralString (input text : List Char) : Option (String × List Char) :=
  match input with
  | [] => none
  | c :: rest =>
    match closingQuotes '\'' (c :: rest) with
    | some extra =>
      some (String.ofList (List.replicate extra '\'' ++ text).reverse, (c :: rest).drop (extra + 3))
    | none => if isText c || c = '\n' then longLiteralString rest (c :: text) else none

/-- The text without the newline that may start it. -/
def trimNewline : List Char → List Char
  | '\n' :: rest => rest
  | input => input

/-- Reads a string of any kind. -/
def string? : List Char → Option (String × List Char)
  | '"' :: '"' :: '"' :: rest => longBasicString (trimNewline rest) []
  | '\'' :: '\'' :: '\'' :: rest => longLiteralString (trimNewline rest) []
  | '"' :: rest => basicString rest []
  | '\'' :: rest => literalString rest
  | _ => none

end ShellScript.Toml
