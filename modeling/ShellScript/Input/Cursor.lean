import ShellScript.Input.Basic

/-!
# Cursors

A cursor is the input that a text in memory is: the bytes that are left, the position they start at,
and what the latest character was taken from. It never fails. A `Scanner` on a stream without failures
behaves as a cursor does, so what is said of cursors is said of every undisturbed input.
-/

namespace ShellScript

/-- A point in a byte list, and the point before the latest character if it can be put back. -/
structure Cursor where
  /-- The bytes from the point on. -/
  rest : List UInt8
  /-- The position of the point. -/
  position : Position := .start
  /-- What `rest` and `position` were before the latest character. -/
  undo : Option (List UInt8 × Position) := none
  deriving DecidableEq, Repr

namespace Cursor

/-- The cursor before the first byte. -/
def ofBytes (bytes : List UInt8) : Cursor := { rest := bytes }

/-- The cursor before the first character of a text. -/
def ofString (text : String) : Cursor := ofBytes (Utf8.encode text)

/-- Takes a character; a byte that starts no well-formed sequence is taken alone and reads as U+FFFD. -/
def nextRune (c : Cursor) : Option Char × Cursor :=
  match c.rest with
  | [] => (none, { c with undo := none })
  | lead :: rest =>
    let (rune, length) := Utf8.nextRune lead rest
    (some rune, {
      rest := c.rest.drop length
      position := c.position.afterRune rune length
      undo := some (c.rest, c.position) })

/-- Takes a byte. -/
def nextByte (c : Cursor) : Option UInt8 × Cursor :=
  match c.rest with
  | [] => (none, { c with undo := none })
  | b :: rest => (some b, { rest, position := c.position.afterByte b, undo := none })

/-- Goes back over the latest character. -/
def unreadRune (c : Cursor) : Bool × Cursor :=
  match c.undo with
  | none => (false, c)
  | some (rest, position) => (true, { rest, position, undo := none })

/-- A character takes at least one byte. -/
theorem length_nextRune_lt {c c' : Cursor} {rune : Char} (h : c.nextRune = (some rune, c')) :
    c'.rest.length < c.rest.length := by
  unfold nextRune at h
  split at h
  · cases h
  · rename_i lead rest hr
    cases h
    simp only [hr]
    cases hn : Utf8.next? (lead :: rest) with
    | none => simp
    | some p =>
      have hb := Utf8.next?_bounds hn
      simp only [List.length_drop, List.length_cons] at *
      omega

/-- Going back over a character just taken restores what was unread. -/
theorem rest_unreadRune {c c' : Cursor} {rune : Char} (h : c.nextRune = (some rune, c')) :
    c'.unreadRune.2.rest = c.rest := by
  unfold nextRune at h
  split at h
  · cases h
  · cases h
    simp [unreadRune]

instance : Input Cursor where
  position := Cursor.position
  nextRune c := (.ok c.nextRune.1, c.nextRune.2)
  nextByte c := (.ok c.nextByte.1, c.nextByte.2)
  peekByte c := (.ok c.rest.head?, c)
  unreadRune := Cursor.unreadRune
  size c := c.rest.length
  size_nextRune_le c := by
    cases h : c.nextRune.1 with
    | none =>
      unfold nextRune at h ⊢
      split at h <;> simp_all
    | some rune => exact Nat.le_of_lt (length_nextRune_lt (Prod.ext h rfl))
  size_nextRune_lt {c rune c'} h := by
    injection h with h₁ h₂
    injection h₁ with h₁
    exact length_nextRune_lt (Prod.ext h₁ h₂)
  size_nextByte_le c := by
    unfold nextByte
    split
    · simp
    · simp_all
  size_nextByte_lt {c b c'} h := by
    injection h with h₁ h₂
    injection h₁ with h₁
    subst h₂
    unfold nextByte at h₁ ⊢
    split at h₁
    · cases h₁
    · simp_all
  size_peekByte_le c := Nat.le_refl _
  size_unreadRune_le {c rune c'} h := by
    injection h with h₁ h₂
    injection h₁ with h₁
    have := rest_unreadRune (Prod.ext h₁ h₂)
    exact Nat.le_of_eq (congrArg List.length this)
  nextByte_of_peekByte {c b c'} h := by
    injection h with h₁ h₂
    injection h₁ with h₁
    subst h₂
    obtain ⟨rest, hr⟩ := List.head?_eq_some_iff.mp h₁
    exact ⟨c.nextByte.2, by simp only [nextByte, hr]⟩

/-- A character that the input interface hands out is the cursor's own. -/
theorem nextRune_of_ok {c c' : Cursor} {rune? : Option Char}
    (h : Input.nextRune c = (.ok rune?, c')) : c.nextRune.1 = rune? ∧ c.nextRune.2 = c' := by
  injection h with h₁ h₂
  exact ⟨Except.ok.inj h₁, h₂⟩

end Cursor

end ShellScript
