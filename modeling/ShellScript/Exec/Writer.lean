/-!
# Writers

Where output goes. A writer takes some of the bytes that it is given, or answers why it takes none, and it
can be flushed; `writeAll` writes on until all is taken or nothing more is. What runs scripts is written
once over this interface and runs with every kind of writer. Where none is named, output goes to a `Sink`,
which keeps it in memory.
-/

namespace ShellScript

/-- Output was not taken. -/
structure WriteError where
  message : String
  deriving DecidableEq, Repr

/-- A write took nothing, so not all of the output could be written. -/
def WriteError.incomplete : WriteError := ⟨"failed to write whole buffer"⟩

/-- A kind of destination for output. -/
class Output where
  /-- The destinations. -/
  Writer : Type
  /-- The destination that is used unless another one is chosen. -/
  standard : Writer
  /-- Takes a part of the bytes, and answers how many were taken. A write that is interrupted is made
  again and is one write. -/
  write : Writer → List UInt8 → Except WriteError Nat × Writer
  /-- Makes sure that what was written has arrived. -/
  flush : Writer → Except WriteError Unit × Writer

namespace Output

variable [Output]

/-- Writes all of the bytes. -/
def writeAll (w : Writer) (bytes : List UInt8) : Except WriteError Unit × Writer :=
  match bytes with
  | [] => (.ok (), w)
  | b :: rest =>
    match write w (b :: rest) with
    | (.error e, w₁) => (.error e, w₁)
    | (.ok 0, w₁) => (.error .incomplete, w₁)
    | (.ok (n + 1), w₁) => writeAll w₁ (rest.drop n)
termination_by bytes.length
decreasing_by
  simp only [List.length_drop, List.length_cons]
  omega

/-- Nothing is to be written on if the first write takes all. -/
theorem writeAll_of_write {w w' : Writer} {bytes : List UInt8} (hbytes : bytes ≠ [])
    (h : write w bytes = (.ok bytes.length, w')) : writeAll w bytes = (.ok (), w') := by
  obtain ⟨b, rest, rfl⟩ := List.exists_cons_of_ne_nil hbytes
  rw [writeAll, h]
  simp [writeAll]

end Output

end ShellScript
