import ShellScript.Position

/-!
# Inputs

What a lexer reads from. An input hands out characters or raw bytes, shows the next byte without
taking it, and takes back the character it handed out last. Everything above this interface is written
once and runs on every input: on a stream that fails at times (`Scanner`) and on text in memory
(`Cursor`).

The laws of the class say that reading uses up the input, which is what loops over an input end by, and
that a byte that was shown is the next one to be taken.
-/

namespace ShellScript

/-- A stream could not be read. -/
structure ReadError where
  message : String
  deriving DecidableEq, Repr

/-- An input that a lexer can read. -/
class Input (σ : Type) where
  /-- The position of the next unread character. -/
  position : σ → Position
  /-- Takes one character; `none` at the end. -/
  nextRune : σ → Except ReadError (Option Char) × σ
  /-- Takes one byte; `none` at the end. -/
  nextByte : σ → Except ReadError (Option UInt8) × σ
  /-- Shows the next byte; `none` at the end. -/
  peekByte : σ → Except ReadError (Option UInt8) × σ
  /-- Puts back the character that the latest read took, if that read was a `nextRune`; says whether
  there was one. -/
  unreadRune : σ → Bool × σ
  /-- The number of bytes not yet taken. -/
  size : σ → Nat
  size_nextRune_le : ∀ s, size (nextRune s).2 ≤ size s
  size_nextRune_lt : ∀ {s c s'}, nextRune s = (.ok (some c), s') → size s' < size s
  size_nextByte_le : ∀ s, size (nextByte s).2 ≤ size s
  size_nextByte_lt : ∀ {s b s'}, nextByte s = (.ok (some b), s') → size s' < size s
  size_peekByte_le : ∀ s, size (peekByte s).2 ≤ size s
  size_unreadRune_le : ∀ {s c s'}, nextRune s = (.ok (some c), s') →
    size (unreadRune s').2 ≤ size s
  nextByte_of_peekByte : ∀ {s b s'}, peekByte s = (.ok (some b), s') →
    ∃ s'', nextByte s' = (.ok (some b), s'')

namespace Input

variable {σ : Type} [Input σ]

/-- Takes everything up to the next newline, which stays unread. Answers whether there was one. -/
def skipToNewline (s : σ) : Except ReadError Bool × σ :=
  match _hp : peekByte s with
  | (.error e, s₁) => (.error e, s₁)
  | (.ok none, s₁) => (.ok false, s₁)
  | (.ok (some b), s₁) =>
    if b = 0x0A then (.ok true, s₁)
    else match _hn : nextByte s₁ with
      | (.error e, s₂) => (.error e, s₂)
      | (.ok none, s₂) => (.ok false, s₂)
      | (.ok (some _), s₂) => skipToNewline s₂
termination_by size s
decreasing_by
  have h₁ := size_peekByte_le s
  have h₂ := size_nextByte_lt _hn
  rw [_hp] at h₁
  exact Nat.lt_of_lt_of_le h₂ h₁

/-- Skipping a line uses up input, or none of it. -/
theorem size_skipToNewline_le (s : σ) : size (skipToNewline s).2 ≤ size s := by
  fun_induction skipToNewline s with
  | case1 s e s₁ hp => have := size_peekByte_le s; rwa [hp] at this
  | case2 s s₁ hp => have := size_peekByte_le s; rwa [hp] at this
  | case3 s s₁ hp => have := size_peekByte_le s; rwa [hp] at this
  | case4 s b s₁ hp hb e s₂ hn =>
    have h₁ := size_peekByte_le s
    have h₂ := size_nextByte_le s₁
    rw [hp] at h₁; rw [hn] at h₂
    exact Nat.le_trans h₂ h₁
  | case5 s b s₁ hp hb s₂ hn =>
    have h₁ := size_peekByte_le s
    have h₂ := size_nextByte_le s₁
    rw [hp] at h₁; rw [hn] at h₂
    exact Nat.le_trans h₂ h₁
  | case6 s b s₁ hp hb b' s₂ hn ih =>
    have h₁ := size_peekByte_le s
    have h₂ := size_nextByte_lt hn
    rw [hp] at h₁
    exact Nat.le_trans ih (Nat.le_trans (Nat.le_of_lt h₂) h₁)

end Input

end ShellScript
