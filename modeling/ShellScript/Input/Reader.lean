/-!
# Buffered readers

A byte stream that shows a window of the bytes to come (`Reader.window`) and moves on when told to
(`Reader.advance`). A reader can be made to fail: a `Fault` stands at an offset, and the first request
for a window at or after it fails. An interruption is worth another try, any other failure is not.
-/

namespace ShellScript

/-- What goes wrong when a fault is met. -/
inductive FaultKind
  /-- The request was interrupted, and can be made again. -/
  | interruption
  /-- The stream fails with a message; a lasting failure happens at every later request too. -/
  | failure (message : String) (lasting : Bool)
  deriving DecidableEq, Repr

/-- A failure that waits at an offset of the stream. -/
structure Fault where
  offset : Nat
  kind : FaultKind
  deriving DecidableEq, Repr

/-- Why a request for bytes was refused. -/
inductive Refusal
  | interrupted
  | failed (message : String)
  deriving DecidableEq, Repr

/-- A byte stream behind a buffer. -/
structure Reader where
  /-- The bytes from the current offset on. -/
  unread : List UInt8
  /-- Bytes already passed. -/
  offset : Nat := 0
  /-- The greatest size of a window, if there is one. -/
  chunk : Option Nat := none
  /-- The faults to come, in the order of their offsets. -/
  faults : List Fault := []
  deriving DecidableEq, Repr

namespace Reader

/-- The bytes that can be shown at once: at most a chunk, and none past the next fault. -/
def visible (r : Reader) : List UInt8 :=
  let upToChunk := match r.chunk with
    | some n => r.unread.take n
    | none => r.unread
  match r.faults with
  | [] => upToChunk
  | fault :: _ => upToChunk.take (fault.offset - r.offset)

/-- Asks for a window. It is empty only at the end of the stream. A fault is met once, unless it
lasts. -/
def window (r : Reader) : Except Refusal (List UInt8) × Reader :=
  match r.faults with
  | [] => (.ok r.visible, r)
  | fault :: later =>
    if fault.offset ≤ r.offset then
      match fault.kind with
      | .interruption => (.error .interrupted, { r with faults := later })
      | .failure message true => (.error (.failed message), r)
      | .failure message false => (.error (.failed message), { r with faults := later })
    else (.ok r.visible, r)

/-- Passes one byte. -/
def advance (r : Reader) : Reader :=
  { r with unread := r.unread.drop 1, offset := r.offset + 1 }

/-- An interruption uses up a fault. -/
theorem faults_lt_of_interrupted {r r' : Reader} (h : r.window = (.error .interrupted, r')) :
    r'.faults.length < r.faults.length := by
  unfold window at h
  split at h
  · cases h
  · rename_i fault later hf
    split at h
    · split at h <;> cases h
      simp [hf]
    · cases h

/-- Takes one byte, asking again as long as requests are interrupted. -/
def takeByte (r : Reader) : Except String (Option UInt8) × Reader :=
  match _h : r.window with
  | (.ok [], r') => (.ok none, r')
  | (.ok (b :: _), r') => (.ok (some b), r'.advance)
  | (.error .interrupted, r') => r'.takeByte
  | (.error (.failed message), r') => (.error message, r')
termination_by r.faults.length
decreasing_by exact faults_lt_of_interrupted _h

/-- A window shows bytes that are unread. -/
theorem length_visible_le (r : Reader) : r.visible.length ≤ r.unread.length := by
  unfold visible
  split <;> split <;> simp only [List.length_take, Nat.le_refl] <;> omega

/-- A request for a window takes nothing. -/
theorem unread_window (r : Reader) : r.window.2.unread = r.unread := by
  unfold window
  split
  · rfl
  · split
    · split <;> rfl
    · rfl

/-- A request that shows bytes shows the reader's visible ones and changes nothing. -/
theorem window_eq_visible {r r' : Reader} {bytes : List UInt8} (h : r.window = (.ok bytes, r')) :
    r' = r ∧ bytes = r.visible := by
  unfold window at h
  split at h
  · cases h; exact ⟨rfl, rfl⟩
  · split at h
    · split at h <;> cases h
    · cases h; exact ⟨rfl, rfl⟩

/-- Taking a byte makes the stream one byte shorter; otherwise nothing is taken. -/
theorem length_takeByte (r : Reader) :
    r.takeByte.2.unread.length + (match r.takeByte.1 with | .ok (some _) => 1 | _ => 0)
      = r.unread.length := by
  fun_induction takeByte r with
  | case1 r r' h => have := unread_window r; rw [h] at this; simp_all
  | case2 r r' b tail h =>
    have hu := unread_window r
    obtain ⟨_, hv⟩ := window_eq_visible h
    have hl := length_visible_le r
    rw [h] at hu
    rw [← hv] at hl
    simp only [List.length_cons] at hl
    simp only [advance, List.length_drop]
    simp only at hu
    rw [hu]
    omega
  | case3 r r' h ih => have := unread_window r; rw [h] at this; simp_all
  | case4 r message r' h => have := unread_window r; rw [h] at this; simp_all

/-- Takes all bytes that are left, after those of a list in reverse. -/
def takeAllAfter (r : Reader) (taken : List UInt8) : Except String (List UInt8) × Reader :=
  match _h : r.takeByte with
  | (.ok none, r') => (.ok taken.reverse, r')
  | (.ok (some b), r') => r'.takeAllAfter (b :: taken)
  | (.error message, r') => (.error message, r')
termination_by r.unread.length
decreasing_by
  have := length_takeByte r
  simp only [_h] at this
  omega

/-- Takes all bytes that are left. -/
def takeAll (r : Reader) : Except String (List UInt8) × Reader :=
  r.takeAllAfter []

end Reader

end ShellScript
