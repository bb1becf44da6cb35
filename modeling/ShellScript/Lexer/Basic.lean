import ShellScript.Input.Basic
import ShellScript.ParseError
import ShellScript.Trace

/-!
# Lexers

A lexer is an input with what reading words needs beside it: the label of the text, where the latest
token started, and a journal of what happened. This module wraps the reads of the input; a read that
fails is a parse error at the position that was reached.

Every read answers a result together with the lexer after it. The lexer stays usable after an error.
The theorems `size_…_le` say that no read makes more input, which is why loops over it end.
-/

namespace ShellScript

/-- An input that words are read from. -/
structure Lexer (σ : Type) where
  input : σ
  /-- The label of the text, for messages. -/
  filename : String
  /-- Where the latest token began, after the blanks before it. -/
  tokenStart : Position := .start
  /-- What happened, the latest first. -/
  journal : List Event := []

namespace Lexer

variable {σ : Type} [Input σ]

/-- A lexer before the first character of an input. -/
def ofInput (input : σ) (filename : String) : Lexer σ := { input, filename }

/-- The current position. -/
def position (l : Lexer σ) : Position := Input.position l.input

/-- A position in the text that is read. -/
def place (l : Lexer σ) (p : Position) : Location := ⟨l.filename, p⟩

/-- The current position with the label of the text. -/
def location (l : Lexer σ) : Location := l.place l.position

/-- Where the latest token began. -/
def startLocation (l : Lexer σ) : Location := l.place l.tokenStart

/-- Adds to the journal. -/
def note (l : Lexer σ) (e : Event) : Lexer σ := { l with journal := e :: l.journal }

/-- The number of bytes not yet read. -/
def size (l : Lexer σ) : Nat := Input.size l.input

/-- The result of a read, and the lexer after it. -/
abbrev Read (σ α : Type) := Except ParseError α × Lexer σ

/-- A read of the input as a read of the lexer. -/
def lift {α : Type} (l : Lexer σ) : Except ReadError α × σ → Read σ α
  | (.ok a, input) => (.ok a, { l with input })
  | (.error e, input) =>
    let l := { l with input }
    (.error (.read e.message l.location), l)

/-- Reads a character; `none` at the end. -/
def nextRune (l : Lexer σ) : Read σ (Option Char) := l.lift (Input.nextRune l.input)

/-- Reads a byte; `none` at the end. -/
def nextByte (l : Lexer σ) : Read σ (Option UInt8) := l.lift (Input.nextByte l.input)

/-- Shows the next byte; `none` at the end. -/
def peekByte (l : Lexer σ) : Read σ (Option UInt8) := l.lift (Input.peekByte l.input)

/-- Reads up to the next newline; answers whether there is one. -/
def skipToNewline (l : Lexer σ) : Read σ Bool := l.lift (Input.skipToNewline l.input)

/-- Puts the latest character back. -/
def unreadRune (l : Lexer σ) : Lexer σ := { l with input := (Input.unreadRune l.input).2 }

/-- Events take no input. -/
@[simp] theorem size_note (l : Lexer σ) (e : Event) : (l.note e).size = l.size := rfl

/-- A lexer has as much left as the input that it reads. -/
theorem size_lift {α : Type} (l : Lexer σ) (r : Except ReadError α × σ) :
    (l.lift r).2.size = Input.size r.2 := by
  obtain ⟨_ | _, _⟩ := r <;> rfl

/-- A read of a lexer that succeeds is one of its input. -/
theorem lift_eq_ok {α : Type} {l l' : Lexer σ} {r : Except ReadError α × σ} {a : α}
    (h : l.lift r = (.ok a, l')) : r = (.ok a, l'.input) := by
  obtain ⟨_ | _, _⟩ := r <;> cases h
  rfl

/-- A character is taken from the input, or there is none. -/
theorem size_nextRune_le (l : Lexer σ) : l.nextRune.2.size ≤ l.size :=
  size_lift l _ ▸ Input.size_nextRune_le l.input

/-- A character takes at least one byte. -/
theorem size_nextRune_lt {l l' : Lexer σ} {c : Char} (h : l.nextRune = (.ok (some c), l')) :
    l'.size < l.size :=
  Input.size_nextRune_lt (lift_eq_ok h)

/-- A byte is taken from the input, or there is none. -/
theorem size_nextByte_le (l : Lexer σ) : l.nextByte.2.size ≤ l.size :=
  size_lift l _ ▸ Input.size_nextByte_le l.input

/-- A byte that is read is gone. -/
theorem size_nextByte_lt {l l' : Lexer σ} {b : UInt8} (h : l.nextByte = (.ok (some b), l')) :
    l'.size < l.size :=
  Input.size_nextByte_lt (lift_eq_ok h)

/-- Looking at a byte may fetch input, but not more than is counted as unread. -/
theorem size_peekByte_le (l : Lexer σ) : l.peekByte.2.size ≤ l.size :=
  size_lift l _ ▸ Input.size_peekByte_le l.input

/-- Skipping a line takes input only. -/
theorem size_skipToNewline_le (l : Lexer σ) : l.skipToNewline.2.size ≤ l.size :=
  size_lift l _ ▸ Input.size_skipToNewline_le l.input

/-- A character that is put back leaves no more than there was before it was read. -/
theorem size_unreadRune_le {l l' : Lexer σ} {c : Char} (h : l.nextRune = (.ok (some c), l')) :
    l'.unreadRune.size ≤ l.size :=
  Input.size_unreadRune_le (lift_eq_ok h)

/-- What is known of the lexer after a read is known of the lexer that it was found to be. -/
theorem size_le_of_eq {α : Type} {l l' : Lexer σ} {r : Read σ α} {a : Except ParseError α}
    (h : r = (a, l')) (hr : r.2.size ≤ l.size) : l'.size ≤ l.size := by
  rwa [h] at hr

/-- Reads a character, and the one after it if it is a carriage return. -/
def nextPastReturn (l : Lexer σ) : Read σ (Option Char) :=
  match l.nextRune with
  | (.ok (some '\r'), l₁) => l₁.nextRune
  | r => r

/-- A carriage return that is passed over takes input too. -/
theorem size_nextPastReturn_le (l : Lexer σ) : l.nextPastReturn.2.size ≤ l.size := by
  have h := size_nextRune_le l
  unfold nextPastReturn
  split
  · rename_i l₁ hr
    rw [hr] at h
    exact Nat.le_trans (size_nextRune_le l₁) h
  · exact h

/-! ## Loops -/

/-- What a step of a loop comes to. -/
inductive Progress (α β : Type)
  /-- There is more to read. -/
  | more (state : α)
  /-- The loop is over. -/
  | done (answer : β)

/-- Repeats a step until it is done or fails. Steps that want more must have taken something, so the
input bounds their number. -/
def iterate {α β : Type} (step : α → Lexer σ → Read σ (Progress α β))
    (takes : ∀ {a a' l l'}, step a l = (.ok (.more a'), l') → l'.size < l.size)
    (a : α) (l : Lexer σ) : Read σ β :=
  match _h : step a l with
  | (.error e, l₁) => (.error e, l₁)
  | (.ok (.done b), l₁) => (.ok b, l₁)
  | (.ok (.more a'), l₁) => iterate step takes a' l₁
termination_by l.size
decreasing_by exact takes _h

/-- A loop is its first step, and the loop again if that step wants more. -/
theorem iterate_eq {α β : Type} {step : α → Lexer σ → Read σ (Progress α β)}
    {takes : ∀ {a a' l l'}, step a l = (.ok (.more a'), l') → l'.size < l.size}
    (a : α) (l : Lexer σ) :
    iterate step takes a l = match step a l with
      | (.error e, l₁) => (.error e, l₁)
      | (.ok (.done b), l₁) => (.ok b, l₁)
      | (.ok (.more a'), l₁) => iterate step takes a' l₁ := by
  rw [iterate]
  split <;> simp_all

/-- A loop that answers does so in a last step, and what all its steps preserve holds before that. -/
theorem iterate_ok {α β : Type} {step : α → Lexer σ → Read σ (Progress α β)}
    {takes : ∀ {a a' l l'}, step a l = (.ok (.more a'), l') → l'.size < l.size}
    {P : α → Lexer σ → Prop}
    (hstep : ∀ {a a' l l'}, P a l → step a l = (.ok (.more a'), l') → P a' l')
    {a : α} {l l' : Lexer σ} {b : β} (ha : P a l) (h : iterate step takes a l = (.ok b, l')) :
    ∃ a₁ l₁, P a₁ l₁ ∧ step a₁ l₁ = (.ok (.done b), l') := by
  fun_induction iterate step takes a l with
  | case1 a l e l₁ hs => cases h
  | case2 a l b' l₁ hs => cases h; exact ⟨a, l, ha, hs⟩
  | case3 a l a' l₁ hs ih => exact ih (hstep ha hs) h

/-- A loop whose steps never make input never makes any. -/
theorem size_iterate_le {α β : Type} {step : α → Lexer σ → Read σ (Progress α β)}
    {takes : ∀ {a a' l l'}, step a l = (.ok (.more a'), l') → l'.size < l.size}
    (le : ∀ a l, (step a l).2.size ≤ l.size) (a : α) (l : Lexer σ) :
    (iterate step takes a l).2.size ≤ l.size := by
  fun_induction iterate step takes a l with
  | case1 a l e l₁ h => exact size_le_of_eq h (le a l)
  | case2 a l b l₁ h => exact size_le_of_eq h (le a l)
  | case3 a l a' l₁ h ih => exact Nat.le_trans ih (Nat.le_of_lt (takes h))

end Lexer

end ShellScript
