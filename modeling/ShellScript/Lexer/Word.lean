import ShellScript.EscapeSet
import ShellScript.Lexer.Quotes

/-!
# Words

Reading one token. `role` says what an unquoted character does, given the escape set; `wordRune` acts
on it. The end of the input, a blank and a separator end a token; everything else adds to it or is an
error. `size_readToken_lt` says that a token takes at least one byte.
-/

namespace ShellScript

/-- A character that joins a run of text without ending it: an ASCII letter or digit, one of
`%+-./:=@_`, or anything outside ASCII. -/
def isShellSafe (c : Char) : Bool :=
  c.isAlphanum || c = '%' || c = '+' || c = '-' || c = '.' || c = '/' || c = ':' || c = '=' ||
    c = '@' || c = '_' || 128 ≤ c.toNat

/-- What a character does outside quotes. -/
inductive Role
  /-- It joins the run of text before it. -/
  | safe
  | separator (s : Separator)
  | blank
  | backslash
  | singleQuote
  | doubleQuote
  | dollar
  | comment
  /-- It belongs to syntax that is not offered. -/
  | unsupported (feature : String)
  /-- It may not stand here. -/
  | misplaced
  /-- It is text, and starts a run of its own. -/
  | plain
  deriving DecidableEq, Repr

/-- The role of a character. A safe character has no other, then the separators come, and a member of
the escape set loses the meaning it would have without it. -/
def role (escape : EscapeSet) (c : Char) : Role :=
  if isShellSafe c then .safe
  else match escape.separator? c <|> Separator.fixed? c with
    | some s => .separator s
    | none =>
      match c with
      | ' ' | '\t' | '\r' => .blank
      | '\\' => .backslash
      | '\'' => .singleQuote
      | '"' => .doubleQuote
      | '$' => .dollar
      | '#' => .comment
      | '`' => .unsupported "backtick command substitution"
      | '(' => .unsupported "subshell or function syntax"
      | '<' | '>' => .unsupported "redirection"
      | '&' => .unsupported "background jobs and `&&` lists"
      | ')' => .misplaced
      | _ => .plain

namespace Lexer

variable {σ : Type} [Input σ]

/-- Reads what the dollar sign at `dollar` introduces outside quotes. -/
def readDollar (dollar : Position) (l : Lexer σ) : Read σ Expansion :=
  match l.nextRune with
  | (.error e, l₁) => (.error e, l₁)
  | (.ok none, l₁) => (.ok .atEnd, l₁)
  | (.ok (some c), l₁) =>
    if c = '\'' then
      match l₁.readAnsiCQuoted dollar with
      | (.error e, l₂) => (.error e, l₂)
      | (.ok literal, l₂) => (.ok (.elements [.literal literal]), l₂)
    else if c = '"' then
      match l₁.readDoubleQuoted l.position with
      | (.error e, l₂) => (.error e, l₂)
      | (.ok elements, l₂) => (.ok (.elements elements), l₂)
    else l₁.readExpansion dollar c

/-- A dollar sign outside quotes makes no input. -/
theorem size_readDollar_le (dollar : Position) (l : Lexer σ) :
    (readDollar dollar l).2.size ≤ l.size := by
  unfold readDollar
  split
  · rename_i h; exact size_le_of_eq h (size_nextRune_le l)
  · rename_i h; exact size_le_of_eq h (size_nextRune_le l)
  · rename_i c l₁ h
    have hl := Nat.le_of_lt (size_nextRune_lt h)
    split
    · split <;> rename_i h' <;>
        exact Nat.le_trans (size_le_of_eq h' (size_readAnsiCQuoted_le dollar l₁)) hl
    · split
      · split <;> rename_i h' <;>
          exact Nat.le_trans (size_le_of_eq h' (size_readDoubleQuoted_le l.position l₁)) hl
      · exact size_readExpansion_le dollar h

/-- Reads on after a `|` at `here`, which is a double pipe if another one follows. It needs something
to apply to. A look ahead that fails finds no second one. -/
def readPipe (here : Position) (hasOperand : Bool) (l : Lexer σ) : Read σ Separator :=
  if !hasOperand then (.error (.unexpectedToken "|" (l.place here)), l)
  else match l.peekByte with
    | (.ok (some 0x7C), l₁) =>
      match l₁.nextByte with
      | (.error e, l₂) => (.error e, l₂)
      | (.ok _, l₂) => (.ok .pipePipe, l₂.note (.pipePair here))
    | (_, l₁) => (.ok .pipe, l₁)

/-- A pipe takes at most the second one behind it. -/
theorem size_readPipe_le (here : Position) (hasOperand : Bool) (l : Lexer σ) :
    (readPipe here hasOperand l).2.size ≤ l.size := by
  unfold readPipe
  split
  · exact Nat.le_refl _
  · split
    · rename_i l₁ hp
      have hl := size_le_of_eq hp (size_peekByte_le l)
      split <;> rename_i h <;>
        (have hb := size_le_of_eq h (size_nextByte_le l₁)
         exact Nat.le_trans hb hl)
    · rename_i hp; exact size_le_of_eq hp (size_peekByte_le l)

/-- Reads a separator whose character was read at `here`. -/
def readSeparator (here : Position) (hasOperand : Bool) (s : Separator) (l : Lexer σ) :
    Read σ Separator :=
  if s = .pipe then l.readPipe here hasOperand else (.ok s, l)

/-- A separator takes no input unless it is a pipe. -/
theorem size_readSeparator_le (here : Position) (hasOperand : Bool) (s : Separator) (l : Lexer σ) :
    (readSeparator here hasOperand s l).2.size ≤ l.size := by
  unfold readSeparator
  split
  · exact size_readPipe_le here hasOperand l
  · exact Nat.le_refl _

/-- Skips a comment after its `#`, up to the newline that ends its line. Answers whether there is
one. -/
def skipComment (l : Lexer σ) : Read σ Bool :=
  match l.skipToNewline with
  | (.error e, l₁) => (.error e, l₁)
  | (.ok found, l₁) => (.ok found, l₁.note (.comment l.position.line (!found)))

/-- A comment takes input only. -/
theorem size_skipComment_le (l : Lexer σ) : (skipComment l).2.size ≤ l.size := by
  unfold skipComment
  split <;> rename_i h
  · exact size_le_of_eq h (size_skipToNewline_le l)
  · have := size_le_of_eq h (size_skipToNewline_le l)
    exact this

/-- Acts on the unquoted character `c`, which was read at `here`. -/
def wordRune (escape : EscapeSet) (commandOpen : Bool) (g : Gathering) (here : Position) (c : Char)
    (l : Lexer σ) : Read σ (Progress Gathering (Option Token)) :=
  let elements := g.settle l.filename
  match role escape c with
  | .safe => (.ok (.more (g.push c here)), l)
  | .plain => (.ok (.more (Gathering.push { elements } c here)), l)
  | .separator s =>
    match l.readSeparator here (!elements.isEmpty || commandOpen) s with
    | (.error e, l₁) => (.error e, l₁)
    | (.ok s, l₁) => (.ok (.done (some ⟨elements ++ [.separator s]⟩)), l₁)
  | .blank =>
    if elements.isEmpty then (.ok (.more {}), { l with tokenStart := l.position })
    else (.ok (.done (some ⟨elements⟩)), l)
  | .backslash =>
    match l.nextPastReturn with
    | (.error e, l₁) => (.error e, l₁)
    | (.ok none, l₁) => (.error (.unexpectedEof "backslash" l₁.location), l₁)
    | (.ok (some '\n'), l₁) => (.ok (.more { elements }), l₁)
    | (.ok (some c'), l₁) => (.ok (.more (Gathering.push { elements } c' here)), l₁)
  | .singleQuote =>
    match l.readSingleQuoted here with
    | (.error e, l₁) => (.error e, l₁)
    | (.ok literal, l₁) => (.ok (.more { elements := elements ++ [.literal literal] }), l₁)
  | .doubleQuote =>
    match l.readDoubleQuoted here with
    | (.error e, l₁) => (.error e, l₁)
    | (.ok parts, l₁) => (.ok (.more { elements := elements ++ parts }), l₁)
  | .dollar =>
    match l.readDollar here with
    | (.error e, l₁) => (.error e, l₁)
    | (.ok (.elements parts), l₁) => (.ok (.more { elements := elements ++ parts }), l₁)
    | (.ok .bare, l₁) => (.ok (.more (Gathering.push { elements } '$' here)), l₁)
    | (.ok .atEnd, l₁) => (.ok (.done (some ⟨elements ++ [.literal ⟨"$", l.place here⟩]⟩)), l₁)
  | .comment =>
    match l.skipComment with
    | (.error e, l₁) => (.error e, l₁)
    | (.ok found, l₁) =>
      if found && elements.isEmpty then (.ok (.more {}), l₁)
      else (.ok (.done (Token.ofElements? elements)), l₁)
  | .unsupported feature => (.error (.unsupported feature (l.place here)), l)
  | .misplaced => (.error (.unexpectedToken c.toString (l.place here)), l)

/-- What an unquoted character introduces makes no input. -/
theorem size_wordRune_le (escape : EscapeSet) (commandOpen : Bool) (g : Gathering)
    (here : Position) (c : Char) (l : Lexer σ) :
    (wordRune escape commandOpen g here c l).2.size ≤ l.size := by
  unfold wordRune
  dsimp only
  split
  · exact Nat.le_refl _
  · exact Nat.le_refl _
  · split <;> rename_i h <;> exact size_le_of_eq h (size_readSeparator_le here _ _ l)
  · split <;> exact Nat.le_refl _
  · split <;> rename_i h <;> exact size_le_of_eq h (size_nextPastReturn_le l)
  · split <;> rename_i h <;> exact size_le_of_eq h (size_readSingleQuoted_le here l)
  · split <;> rename_i h <;> exact size_le_of_eq h (size_readDoubleQuoted_le here l)
  · split <;> rename_i h <;> exact size_le_of_eq h (size_readDollar_le here l)
  · split
    · rename_i h; exact size_le_of_eq h (size_skipComment_le l)
    · rename_i h
      split <;> exact size_le_of_eq h (size_skipComment_le l)
  · exact Nat.le_refl _
  · exact Nat.le_refl _

/-- Reads one more character of a token, with all that it introduces. -/
def wordStep (escape : EscapeSet) (commandOpen : Bool) (g : Gathering) (l : Lexer σ) :
    Read σ (Progress Gathering (Option Token)) :=
  match l.nextRune with
  | (.error e, l₁) => (.error e, l₁)
  | (.ok none, l₁) => (.ok (.done (Token.ofElements? (g.settle l.filename))), l₁)
  | (.ok (some c), l₁) => l₁.wordRune escape commandOpen g l.position c

/-- A step of a token makes no input. -/
theorem size_wordStep_le (escape : EscapeSet) (commandOpen : Bool) (g : Gathering) (l : Lexer σ) :
    (wordStep escape commandOpen g l).2.size ≤ l.size := by
  unfold wordStep
  split <;> rename_i h
  · exact size_le_of_eq h (size_nextRune_le l)
  · exact size_le_of_eq h (size_nextRune_le l)
  · exact Nat.le_trans (size_wordRune_le _ _ _ _ _ _) (Nat.le_of_lt (size_nextRune_lt h))

/-- A token that goes on has taken a character. -/
theorem size_wordStep_lt {escape : EscapeSet} {commandOpen : Bool} {g g' : Gathering}
    {l l' : Lexer σ} (h : wordStep escape commandOpen g l = (.ok (.more g'), l')) :
    l'.size < l.size := by
  unfold wordStep at h
  split at h
  · cases h
  · cases h
  · rename_i hr
    exact Nat.lt_of_le_of_lt (size_le_of_eq h (size_wordRune_le _ _ _ _ _ _)) (size_nextRune_lt hr)

/-- Reads the next token. `commandOpen` says whether the command already holds a word, which a leading
pipe needs. The answer is `none` when the input ends before anything of a token. -/
def readToken (escape : EscapeSet) (commandOpen : Bool) (l : Lexer σ) : Read σ (Option Token) :=
  iterate (wordStep escape commandOpen) size_wordStep_lt {} { l with tokenStart := l.position }

/-- A token makes no input, however it ends. -/
theorem size_readToken_le (escape : EscapeSet) (commandOpen : Bool) (l : Lexer σ) :
    (readToken escape commandOpen l).2.size ≤ l.size :=
  size_iterate_le (size_wordStep_le escape commandOpen) _ _

/-- A token takes at least one byte. -/
theorem size_readToken_lt {escape : EscapeSet} {commandOpen : Bool} {l l' : Lexer σ} {t : Token}
    (h : readToken escape commandOpen l = (.ok (some t), l')) : l'.size < l.size := by
  unfold readToken at h
  rw [iterate_eq] at h
  split at h
  · cases h
  · rename_i hs
    cases h
    unfold wordStep at hs
    split at hs
    · cases hs
    · cases hs
    · rename_i hr
      have hr := size_nextRune_lt hr
      exact Nat.lt_of_le_of_lt (size_le_of_eq hs (size_wordRune_le _ _ _ _ _ _)) hr
  · rename_i hs
    have hs := size_wordStep_lt hs
    exact Nat.lt_of_le_of_lt
      (size_le_of_eq h (size_iterate_le (size_wordStep_le escape commandOpen) _ _)) hs

end Lexer

end ShellScript
