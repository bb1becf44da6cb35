import ShellScript.Exec.Writer

/-!
# Sinks

A sink is a writer that keeps what was written to it. It may take only so many bytes at a time, or in
total, and its flush may fail.
-/

namespace ShellScript

/-- A destination of output in memory. -/
structure Sink where
  /-- What was written and not cleared. -/
  contents : List UInt8 := []
  /-- How many bytes it still takes, if there is a limit. -/
  room : Option Nat := none
  /-- How many bytes it takes in one write, if there is a limit. -/
  perWrite : Option Nat := none
  /-- Whether a write without room takes nothing instead of failing. -/
  stalls : Bool := false
  /-- Whether flushing fails. -/
  flushFails : Bool := false
  /-- How often it was flushed, or failed to be. -/
  flushes : Nat := 0
  deriving DecidableEq, Repr

namespace Sink

/-- How many of so many bytes one write takes. -/
def accepted (s : Sink) (n : Nat) : Nat :=
  min (min n (s.perWrite.getD n)) (s.room.getD n)

/-- Writes a part of the bytes, and answers how many were taken. -/
def write (s : Sink) (bytes : List UInt8) : Except WriteError Nat × Sink :=
  if s.room = some 0 && !bytes.isEmpty && !s.stalls then (.error ⟨"sink full"⟩, s)
  else
    let n := s.accepted bytes.length
    (.ok n, { s with contents := s.contents ++ bytes.take n, room := s.room.map (· - n) })

/-- Makes sure that what was written has arrived. -/
def flush (s : Sink) : Except WriteError Unit × Sink :=
  (if s.flushFails then .error ⟨"flush failed"⟩ else .ok (), { s with flushes := s.flushes + 1 })

/-- Output goes to sinks where nothing else is said. -/
instance inMemory : Output where
  Writer := Sink
  standard := {}
  write := Sink.write
  flush := Sink.flush

/-- Writes all of the bytes. -/
abbrev writeAll (s : Sink) (bytes : List UInt8) : Except WriteError Unit × Sink :=
  Output.writeAll s bytes

/-- A sink without limits takes all that is written to it. -/
theorem writeAll_of_unlimited {s : Sink} (hroom : s.room = none) (hperWrite : s.perWrite = none)
    (bytes : List UInt8) :
    s.writeAll bytes = (.ok (), { s with contents := s.contents ++ bytes }) := by
  by_cases hbytes : bytes = []
  · simp [hbytes, Output.writeAll]
  · refine Output.writeAll_of_write hbytes ?_
    change s.write bytes = _
    simp [write, accepted, hroom, hperWrite]

/-- A write that fails changes nothing. -/
theorem write_error {s s' : Sink} {bytes : List UInt8} {e : WriteError} (h : s.write bytes = (.error e, s')) :
    s' = s := by
  unfold write at h
  split at h
  · cases h; rfl
  · cases h

/-- A write that succeeds takes a beginning of the bytes. -/
theorem write_ok {s s' : Sink} {bytes : List UInt8} {n : Nat} (h : s.write bytes = (.ok n, s')) :
    n ≤ bytes.length ∧ s'.contents = s.contents ++ bytes.take n := by
  unfold write at h
  split at h
  · cases h
  · cases h
    exact ⟨by unfold accepted; omega, rfl⟩

/-- Whatever the limits, a sink gets a beginning of the bytes behind what it had, and all of them if and only
if the writing succeeds. -/
theorem contents_writeAll (s : Sink) (bytes : List UInt8) :
    ∃ n, (s.writeAll bytes).2.contents = s.contents ++ bytes.take n ∧
      ((s.writeAll bytes).1 = .ok () ↔ bytes.length ≤ n) := by
  -- by induction along the writes, each of which takes a beginning of what is left
  unfold writeAll
  fun_induction Output.writeAll s bytes with
  | case1 s => exact ⟨0, by simp, by simp⟩
  | case2 s b rest e s₁ h =>
    obtain rfl := write_error h
    exact ⟨0, by simp, by simp⟩
  | case3 s b rest s₁ h =>
    obtain ⟨-, hcontents⟩ := write_ok h
    exact ⟨0, hcontents, by simp⟩
  | case4 s b rest n s₁ h ih =>
    obtain ⟨m, hm, hok⟩ := ih
    obtain ⟨hn, hcontents⟩ := write_ok h
    refine ⟨n + 1 + m, ?_, ?_⟩
    · rw [hm, hcontents, List.append_assoc, List.take_add, List.drop_succ_cons]
    · rw [hok, List.length_drop, List.length_cons]
      omega

/-- Forgets what was written. The room that it took does not come back. -/
def clear (s : Sink) : Sink := { s with contents := [] }

/-- A sink as diagnostics show it, which is without its contents. -/
def display (_ : Sink) : String := "Sink \x7b .. \x7d"

end Sink

end ShellScript
