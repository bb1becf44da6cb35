import ShellScript.Input.Basic
import ShellScript.Input.Reader

/-!
# Scanners

A scanner reads characters and bytes from a `Reader` and keeps their position. Bytes that it had to
look at without taking them, and a character that was put back, wait in a stack in front of the
reader.

A failed read answers the error and leaves the position alone. Bytes that were already taken for a
character whose later bytes could not be read are gone.
-/

namespace ShellScript

/-- The character that the latest read took: its bytes and the position before it. -/
structure TakenRune where
  bytes : List UInt8
  before : Position
  deriving DecidableEq, Repr

/-- A position-keeping reader with a stack of bytes to be read again. -/
structure Scanner where
  reader : Reader
  /-- The position of the next unread character. -/
  position : Position := .start
  /-- Bytes to be read before those of the reader. -/
  pushedBack : List UInt8 := []
  /-- The character that can be put back. -/
  latest : Option TakenRune := none
  deriving DecidableEq, Repr

namespace Scanner

/-- A scanner at the start of a stream. -/
def ofReader (reader : Reader) : Scanner := { reader }

/-- Takes a byte without moving the position. -/
def rawByte (s : Scanner) : Except ReadError (Option UInt8) × Scanner :=
  match s.pushedBack with
  | b :: rest => (.ok (some b), { s with pushedBack := rest })
  | [] =>
    match s.reader.takeByte with
    | (.ok b?, reader) => (.ok b?, { s with reader })
    | (.error message, reader) => (.error ⟨message⟩, { s with reader })

/-- Puts bytes in front of all that is unread. -/
def pushBack (s : Scanner) (bytes : List UInt8) : Scanner :=
  { s with pushedBack := bytes ++ s.pushedBack }

/-- Takes at most `n` continuation bytes, and stops before any other byte. -/
def rawTail : Nat → Scanner → Except ReadError (List UInt8) × Scanner
  | 0, s => (.ok [], s)
  | n + 1, s =>
    match s.rawByte with
    | (.error e, s₁) => (.error e, s₁)
    | (.ok none, s₁) => (.ok [], s₁)
    | (.ok (some b), s₁) =>
      if Utf8.isContinuation b then
        match rawTail n s₁ with
        | (.ok tail, s₂) => (.ok (b :: tail), s₂)
        | (.error e, s₂) => (.error e, s₂)
      else (.ok [], s₁.pushBack [b])

/-- Makes `bytes`, read as `rune`, the latest character, and moves past it. -/
def take (s : Scanner) (rune : Char) (bytes : List UInt8) : Scanner :=
  { s with
    position := s.position.afterRune rune bytes.length
    latest := some ⟨bytes, s.position⟩ }

/-- Takes a character; a byte that starts no well-formed sequence is taken alone and reads as U+FFFD. -/
def nextRune (s : Scanner) : Except ReadError (Option Char) × Scanner :=
  match s.rawByte with
  | (.error e, s₁) => (.error e, s₁)
  | (.ok none, s₁) => (.ok none, { s₁ with latest := none })
  | (.ok (some lead), s₁) =>
    match s₁.rawTail (Utf8.width lead - 1) with
    | (.error e, s₂) => (.error e, s₂)
    | (.ok tail, s₂) =>
      match Utf8.next? (lead :: tail) with
      | some (rune, _) => (.ok (some rune), s₂.take rune (lead :: tail))
      | none => (.ok (some Utf8.replacement), (s₂.pushBack tail).take Utf8.replacement [lead])

/-- Takes a byte. The character before it can no longer be put back, even if the read fails. -/
def nextByte (s : Scanner) : Except ReadError (Option UInt8) × Scanner :=
  match { s with latest := none }.rawByte with
  | (.ok (some b), s₁) => (.ok (some b), { s₁ with position := s₁.position.afterByte b })
  | (.ok none, s₁) => (.ok none, s₁)
  | (.error e, s₁) => (.error e, s₁)

/-- Shows the next byte. -/
def peekByte (s : Scanner) : Except ReadError (Option UInt8) × Scanner :=
  match s.rawByte with
  | (.ok (some b), s₁) => (.ok (some b), s₁.pushBack [b])
  | (.ok none, s₁) => (.ok none, s₁)
  | (.error e, s₁) => (.error e, s₁)

/-- Puts the latest character back, with the position it was read at. -/
def unreadRune (s : Scanner) : Bool × Scanner :=
  match s.latest with
  | none => (false, s)
  | some taken =>
    (true, { s.pushBack taken.bytes with position := taken.before, latest := none })

/-- The bytes that are not yet taken. -/
def unread (s : Scanner) : List UInt8 := s.pushedBack ++ s.reader.unread

/-- The number of bytes not yet taken. -/
def size (s : Scanner) : Nat := s.unread.length

/-- The bytes that were put back are unread, and so is what the reader still has. -/
theorem size_eq (s : Scanner) : s.size = s.pushedBack.length + s.reader.unread.length := by
  simp [size, unread]

/-- Putting bytes back makes as many of them unread. -/
@[simp] theorem size_pushBack (s : Scanner) (bytes : List UInt8) :
    (s.pushBack bytes).size = bytes.length + s.size := by
  simp [size_eq, pushBack, Nat.add_assoc]

/-- Remembering a character for putting it back changes nothing about what is unread. -/
@[simp] theorem size_take (s : Scanner) (rune : Char) (bytes : List UInt8) :
    (s.take rune bytes).size = s.size := rfl

/-- A byte makes what is unread one byte shorter; otherwise nothing is taken. -/
theorem size_rawByte (s : Scanner) :
    s.rawByte.2.size + (match s.rawByte.1 with | .ok (some _) => 1 | _ => 0) = s.size := by
  unfold rawByte
  split
  · rename_i b rest h
    simp [size_eq, h]; omega
  · rename_i h
    have hl := Reader.length_takeByte s.reader
    split
    · rename_i b? reader ht
      rw [ht] at hl
      cases b? <;> simpa [size_eq, h] using hl
    · rename_i message reader ht
      rw [ht] at hl
      simpa [size_eq, h] using hl

/-- What the tail of a sequence takes is what it answers. -/
theorem size_rawTail {n : Nat} {s s' : Scanner} {tail : List UInt8}
    (h : s.rawTail n = (.ok tail, s')) : s'.size + tail.length = s.size := by
  induction n generalizing s s' tail with
  | zero => cases h; simp
  | succ n ih =>
    have hb := size_rawByte s
    unfold rawTail at h
    split at h
    · cases h
    · rename_i hr; cases h; rw [hr] at hb; simpa using hb
    · rename_i b s₁ hr
      rw [hr] at hb
      simp only at hb
      split at h
      · split at h <;> cases h
        rename_i ht
        have := ih ht
        simp only [List.length_cons]
        omega
      · cases h
        simp only [size_pushBack, List.length_cons, List.length_nil]
        omega

/-- A failed tail takes no more than there is. -/
theorem size_rawTail_le (n : Nat) (s : Scanner) : (s.rawTail n).2.size ≤ s.size := by
  induction n generalizing s with
  | zero => exact Nat.le_refl _
  | succ n ih =>
    have hb := size_rawByte s
    unfold rawTail
    split
    · rename_i hr; rw [hr] at hb; simp only at hb ⊢; omega
    · rename_i hr; rw [hr] at hb; simp only at hb ⊢; omega
    · rename_i b s₁ hr
      rw [hr] at hb
      simp only at hb
      split
      · have := ih s₁
        split <;> rename_i ht <;> rw [ht] at this <;> simp only at this ⊢ <;> omega
      · simp only [size_pushBack, List.length_cons, List.length_nil]
        omega

/-- A character takes at least one byte. -/
theorem size_nextRune_lt {s s' : Scanner} {rune : Char} (h : s.nextRune = (.ok (some rune), s')) :
    s'.size < s.size := by
  have hb := size_rawByte s
  unfold nextRune at h
  split at h
  · cases h
  · cases h
  · rename_i lead s₁ hr
    rw [hr] at hb
    simp only at hb
    split at h
    · cases h
    · rename_i tail s₂ ht
      have := size_rawTail ht
      split at h <;> cases h <;>
        simp only [size_take, size_pushBack] <;> omega

/-- No read of a character makes more unread. -/
theorem size_nextRune_le (s : Scanner) : s.nextRune.2.size ≤ s.size := by
  have hb := size_rawByte s
  unfold nextRune
  split
  · rename_i hr; rw [hr] at hb; simp only at hb ⊢; omega
  · rename_i s₁ hr
    rw [hr] at hb
    have : ({ s₁ with latest := none } : Scanner).size = s₁.size := rfl
    simp only at hb ⊢; omega
  · rename_i lead s₁ hr
    rw [hr] at hb
    simp only at hb
    split
    · rename_i ht
      have := size_rawTail_le (Utf8.width lead - 1) s₁
      rw [ht] at this
      simp only at this ⊢; omega
    · rename_i tail s₂ ht
      have := size_rawTail ht
      split <;> simp only [size_take, size_pushBack] <;> omega

/-- Putting back a character just taken restores the number of unread bytes. -/
theorem size_unreadRune {s s' : Scanner} {rune : Char} (h : s.nextRune = (.ok (some rune), s')) :
    s'.unreadRune.2.size = s.size := by
  have hb := size_rawByte s
  unfold nextRune at h
  split at h
  · cases h
  · cases h
  · rename_i lead s₁ hr
    rw [hr] at hb
    simp only at hb
    split at h
    · cases h
    · rename_i tail s₂ ht
      have := size_rawTail ht
      split at h <;> cases h <;>
        simp only [unreadRune, take, pushBack, size_eq, List.length_append, List.length_cons,
          List.length_nil] at * <;> omega

/-- No read of a byte makes more unread, and one that answers a byte takes it. -/
theorem size_nextByte (s : Scanner) :
    s.nextByte.2.size + (match s.nextByte.1 with | .ok (some _) => 1 | _ => 0) = s.size := by
  have hb := size_rawByte { s with latest := none }
  have hs : ({ s with latest := none } : Scanner).size = s.size := rfl
  unfold nextByte
  split <;> rename_i hr <;> rw [hr] at hb <;> simp only at hb ⊢
  · rename_i s₁
    have : ∀ p, ({ s₁ with position := p } : Scanner).size = s₁.size := fun _ => rfl
    rw [this]; omega
  · omega
  · omega

/-- Looking at a byte takes nothing. -/
theorem size_peekByte (s : Scanner) : s.peekByte.2.size = s.size := by
  have hb := size_rawByte s
  unfold peekByte
  split <;> rename_i hr <;> rw [hr] at hb <;> simp only at hb ⊢
  · simp only [size_pushBack, List.length_cons, List.length_nil]; omega
  · omega
  · omega

/-- A byte that was shown is the next one to be taken. -/
theorem nextByte_of_peekByte {s s' : Scanner} {b : UInt8} (h : s.peekByte = (.ok (some b), s')) :
    ∃ s'', s'.nextByte = (.ok (some b), s'') := by
  unfold peekByte at h
  split at h <;> cases h
  exact ⟨_, rfl⟩

instance : Input Scanner where
  position := Scanner.position
  nextRune := Scanner.nextRune
  nextByte := Scanner.nextByte
  peekByte := Scanner.peekByte
  unreadRune := Scanner.unreadRune
  size := Scanner.size
  size_nextRune_le := size_nextRune_le
  size_nextRune_lt := size_nextRune_lt
  size_nextByte_le s := by have := size_nextByte s; omega
  size_nextByte_lt {s b s'} h := by
    have := size_nextByte s
    rw [h] at this
    simp only at this
    omega
  size_peekByte_le s := Nat.le_of_eq (size_peekByte s)
  size_unreadRune_le h := Nat.le_of_eq (size_unreadRune h)
  nextByte_of_peekByte := nextByte_of_peekByte

end Scanner

end ShellScript
