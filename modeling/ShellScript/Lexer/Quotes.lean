import ShellScript.Escape
import ShellScript.Lexer.Parameter

/-!
# Quotes

Three kinds of quotes. Single quotes take bytes as they are; `$'…'` takes them the same way and decodes
their escapes; double quotes keep expansions and some backslashes special. `Draft` is the literal text
being gathered, with the place where it began.
-/

namespace ShellScript

/-- Literal text that is being gathered, and where it began. -/
structure Draft where
  text : String := ""
  origin : Option Position := none
  deriving DecidableEq, Repr

/-- The draft with one more character, which came from position `p`. -/
def Draft.push (d : Draft) (c : Char) (p : Position) : Draft :=
  { text := d.text.push c, origin := some (d.origin.getD p) }

/-- A word in the making: the elements that are complete, and the text after them. -/
structure Gathering where
  elements : List Element := []
  draft : Draft := {}
  deriving DecidableEq, Repr

namespace Gathering

/-- Adds a character to the text. -/
def push (g : Gathering) (c : Char) (p : Position) : Gathering :=
  { g with draft := g.draft.push c p }

/-- The elements when the text is over. Empty text is no element. -/
def settle (g : Gathering) (filename : String) : List Element :=
  if g.draft.text.isEmpty then g.elements
  else g.elements ++ [.literal ⟨g.draft.text, ⟨filename, g.draft.origin.getD .start⟩⟩]

end Gathering

namespace Lexer

variable {σ : Type} [Input σ]

/-! ## Quotes that keep everything -/

/-- Reads one more byte of a raw quote; the bytes before it are in reverse. -/
def rawQuoteStep (quote : QuoteKind) (opening : Position) (bytes : List UInt8) (l : Lexer σ) :
    Read σ (Progress (List UInt8) (List UInt8)) :=
  match l.nextByte with
  | (.error e, l₁) => (.error e, l₁)
  | (.ok none, l₁) => (.error (.unterminatedQuote quote (l.place opening)), l₁)
  | (.ok (some b), l₁) =>
    if b = 0x27 then (.ok (.done bytes.reverse), l₁) else (.ok (.more (b :: bytes)), l₁)

/-- A step of a raw quote makes no input. -/
theorem size_rawQuoteStep_le (quote : QuoteKind) (opening : Position) (bytes : List UInt8)
    (l : Lexer σ) : (rawQuoteStep quote opening bytes l).2.size ≤ l.size := by
  unfold rawQuoteStep
  split <;> rename_i h
  · exact size_le_of_eq h (size_nextByte_le l)
  · exact size_le_of_eq h (size_nextByte_le l)
  · split <;> exact Nat.le_of_lt (size_nextByte_lt h)

/-- A raw quote that goes on has taken a byte. -/
theorem size_rawQuoteStep_lt {quote : QuoteKind} {opening : Position} {bytes bytes' : List UInt8}
    {l l' : Lexer σ} (h : rawQuoteStep quote opening bytes l = (.ok (.more bytes'), l')) :
    l'.size < l.size := by
  unfold rawQuoteStep at h
  split at h
  · cases h
  · cases h
  · rename_i hr
    split at h <;> cases h
    exact size_nextByte_lt hr

/-- Reads bytes up to the closing single quote. Nothing among them is special. -/
def readRawQuote (quote : QuoteKind) (opening : Position) (l : Lexer σ) : Read σ (List UInt8) :=
  iterate (rawQuoteStep quote opening) size_rawQuoteStep_lt [] l

/-- A raw quote makes no input. -/
theorem size_readRawQuote_le (quote : QuoteKind) (opening : Position) (l : Lexer σ) :
    (readRawQuote quote opening l).2.size ≤ l.size :=
  size_iterate_le (size_rawQuoteStep_le quote opening) _ l

/-- Reads a single-quoted literal after its opening quote. -/
def readSingleQuoted (opening : Position) (l : Lexer σ) : Read σ Literal :=
  match l.readRawQuote .single opening with
  | (.error e, l₁) => (.error e, l₁)
  | (.ok bytes, l₁) => (.ok ⟨Utf8.decodeLossy bytes, l.place opening⟩, l₁)

/-- Reads a `$'…'` literal after its opening quote. Decoded bytes that are not UTF-8 become U+FFFD. -/
def readAnsiCQuoted (dollar : Position) (l : Lexer σ) : Read σ Literal :=
  match l.readRawQuote .ansiC dollar with
  | (.error e, l₁) => (.error e, l₁)
  | (.ok bytes, l₁) => (.ok ⟨(Escape.decode (Utf8.decodeLossy bytes)).1, l.place dollar⟩, l₁)

/-- Single-quoted text makes no input. -/
theorem size_readSingleQuoted_le (opening : Position) (l : Lexer σ) :
    (readSingleQuoted opening l).2.size ≤ l.size := by
  unfold readSingleQuoted
  split <;> rename_i h <;> exact size_le_of_eq h (size_readRawQuote_le .single opening l)

/-- Text with escapes makes no input. -/
theorem size_readAnsiCQuoted_le (dollar : Position) (l : Lexer σ) :
    (readAnsiCQuoted dollar l).2.size ≤ l.size := by
  unfold readAnsiCQuoted
  split <;> rename_i h <;> exact size_le_of_eq h (size_readRawQuote_le .ansiC dollar l)

/-! ## Double quotes -/

/-- What is gathered after a backslash at `p` and the character `c` behind it, inside double quotes.
The backslash goes away before what it protects, and together with a newline; elsewhere it stays. -/
def protect (g : Gathering) (c : Char) (p : Position) : Gathering :=
  if c = '$' || c = '`' || c = '"' || c = '\\' then g.push c p
  else if c = '\n' then g
  else (g.push '\\' p).push c p

/-- What closing double quotes make of what was gathered. Empty quotes are one empty literal, so that
they still count as a word. -/
def closeQuotes (opening : Location) (elements : List Element) : List Element :=
  match elements with
  | [] => [.literal ⟨"", opening⟩]
  | es => es

/-- Reads one more character inside double quotes, with all that it introduces. -/
def doubleQuoteStep (opening : Position) (g : Gathering) (l : Lexer σ) :
    Read σ (Progress Gathering (List Element)) :=
  let here := l.position
  let unterminated : ParseError := .unterminatedQuote .double (l.place opening)
  match l.nextRune with
  | (.error e, l₁) => (.error e, l₁)
  | (.ok none, l₁) => (.error unterminated, l₁)
  | (.ok (some c), l₁) =>
    if c = '"' then (.ok (.done (closeQuotes (l.place opening) (g.settle l.filename))), l₁)
    else if c = '$' then
      match l₁.readInnerDollar here with
      | (.error e, l₂) => (.error e, l₂)
      | (.ok .atEnd, l₂) => (.error unterminated, l₂)
      | (.ok .bare, l₂) =>
        (.ok (.more (Gathering.push { elements := g.settle l.filename } '$' here)), l₂)
      | (.ok (.elements es), l₂) => (.ok (.more { elements := g.settle l.filename ++ es }), l₂)
    else if c = '`' then
      (.error (.unsupported "backtick command substitution" (l.place here)), l₁)
    else if c = '\\' then
      match l₁.nextPastReturn with
      | (.error e, l₂) => (.error e, l₂)
      | (.ok none, l₂) => (.error unterminated, l₂)
      | (.ok (some c'), l₂) => (.ok (.more (protect g c' here)), l₂)
    else (.ok (.more (g.push c here)), l₁)

/-- A step inside double quotes takes a character, unless there is none or it cannot be read. -/
theorem size_doubleQuoteStep (opening : Position) (g : Gathering) (l : Lexer σ) :
    (doubleQuoteStep opening g l).2.size ≤ l.size ∧
      ((∃ p, (doubleQuoteStep opening g l).1 = .ok p) →
        (doubleQuoteStep opening g l).2.size < l.size) := by
  unfold doubleQuoteStep
  dsimp only
  split <;> rename_i h
  · exact ⟨size_le_of_eq h (size_nextRune_le l), by simp⟩
  · exact ⟨size_le_of_eq h (size_nextRune_le l), by simp⟩
  · rename_i c l₁
    have hl := size_nextRune_lt h
    suffices hs : ∀ {l₂ : Lexer σ}, l₂.size ≤ l₁.size → l₂.size < l.size by
      split
      · exact ⟨Nat.le_of_lt hl, fun _ => hl⟩
      · split
        · split <;> rename_i hd <;>
            (have hd := hs (size_le_of_eq hd (size_readInnerDollar_le l.position l₁))
             exact ⟨Nat.le_of_lt hd, fun _ => hd⟩)
        · split
          · exact ⟨Nat.le_of_lt hl, fun _ => hl⟩
          · split
            · split <;> rename_i hb <;>
                (have hb := hs (size_le_of_eq hb (size_nextPastReturn_le l₁))
                 exact ⟨Nat.le_of_lt hb, fun _ => hb⟩)
            · exact ⟨Nat.le_of_lt hl, fun _ => hl⟩
    exact fun h₂ => Nat.lt_of_le_of_lt h₂ hl

/-- Double quotes that go on have taken a character. -/
theorem size_doubleQuoteStep_lt {opening : Position} {g g' : Gathering} {l l' : Lexer σ}
    (h : doubleQuoteStep opening g l = (.ok (.more g'), l')) : l'.size < l.size := by
  have := (size_doubleQuoteStep opening g l).2
  rw [h] at this
  exact this ⟨_, rfl⟩

/-- Reads a double-quoted string after its opening quote: its literals and expansions in order. -/
def readDoubleQuoted (opening : Position) (l : Lexer σ) : Read σ (List Element) :=
  iterate (doubleQuoteStep opening) size_doubleQuoteStep_lt
    { draft := { origin := some opening } } l

/-- Double quotes make no input, whatever is expanded between them. -/
theorem size_readDoubleQuoted_le (opening : Position) (l : Lexer σ) :
    (readDoubleQuoted opening l).2.size ≤ l.size :=
  size_iterate_le (fun g l => (size_doubleQuoteStep opening g l).1) _ l

end Lexer

end ShellScript
