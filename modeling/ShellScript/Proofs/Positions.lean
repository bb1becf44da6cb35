import ShellScript.Position
import ShellScript.Proofs.Encoding

/-!
# Positions in a text

`Position.behind` is the position behind the beginning of a text. A text that is read byte by byte leads
to the same position as one that is read character by character (`foldl_afterByte_behind`).
-/

namespace ShellScript

namespace Utf8

@[simp] theorem encodeChars_nil : encodeChars [] = [] := rfl

@[simp] theorem encodeChars_cons (c : Char) (cs : List Char) :
    encodeChars (c :: cs) = String.utf8EncodeChar c ++ encodeChars cs := rfl

@[simp] theorem encodeChars_append (cs ds : List Char) :
    encodeChars (cs ++ ds) = encodeChars cs ++ encodeChars ds :=
  List.flatMap_append

/-- Only the empty text has no bytes. -/
theorem encodeChars_eq_nil {cs : List Char} : encodeChars cs = [] ↔ cs = [] := by
  constructor
  · intro h
    cases cs with
    | nil => rfl
    | cons c cs =>
      have hlength := congrArg List.length h
      rw [encodeChars_cons, List.length_append, String.length_utf8EncodeChar] at hlength
      have hpos := c.utf8Size_pos
      simp at hlength
      omega
  · rintro rfl
    rfl

/-- The byte of an ASCII character. -/
def ascii (c : Char) : UInt8 := UInt8.ofNat c.toNat

/-- An ASCII character is one byte. -/
theorem utf8EncodeChar_ascii {c : Char} (h : c.toNat < 128) : String.utf8EncodeChar c = [ascii c] := by
  unfold String.utf8EncodeChar
  exact if_pos (Nat.le_of_lt_succ h)

/-- Different ASCII characters are different bytes. -/
theorem ascii_inj {c d : Char} (hc : c.toNat < 128) (hd : d.toNat < 128) (h : ascii c = ascii d) :
    c = d := by
  have := congrArg UInt8.toNat h
  rw [ascii, ascii, UInt8.toNat_ofNat', UInt8.toNat_ofNat'] at this
  exact Char.toNat_inj.mp (by omega)

/-- The byte of an ASCII character stands for nothing else. -/
theorem eq_of_ascii_mem {c d : Char} (hd : d.toNat < 128) (h : ascii d ∈ String.utf8EncodeChar c) :
    c = d := by
  have hv : c.val.toNat < 0xD800 ∨ 0xDFFF < c.val.toNat ∧ c.val.toNat < 0x110000 := c.valid
  have hne {n : Nat} (hn : 0x80 ≤ n) (hlt : n < 256) : ascii d ≠ UInt8.ofNat n := by
    intro he
    have := congrArg UInt8.toNat he
    rw [ascii, UInt8.toNat_ofNat', UInt8.toNat_ofNat'] at this
    omega
  unfold String.utf8EncodeChar at h
  dsimp only at h
  split at h
  · rename_i hc
    have := congrArg UInt8.toNat (List.mem_singleton.mp h)
    rw [ascii, UInt8.toNat_ofNat', UInt8.toNat_ofNat'] at this
    exact Char.toNat_inj.mp (show c.val.toNat = d.toNat by omega)
  · -- longer sequences have no ASCII byte
    exfalso
    split at h
    · simp only [List.mem_cons, List.not_mem_nil, or_false] at h
      rcases h with h | h <;> exact hne (by omega) (by omega) h
    · split at h <;> simp only [List.mem_cons, List.not_mem_nil, or_false] at h
      · rcases h with h | h | h <;> exact hne (by omega) (by omega) h
      · rcases h with h | h | h | h <;> exact hne (by omega) (by omega) h

/-- The byte of an ASCII character stands in a text only where the character does. -/
theorem mem_of_ascii_mem {d : Char} (hd : d.toNat < 128) {cs : List Char}
    (h : ascii d ∈ encodeChars cs) : d ∈ cs := by
  obtain ⟨c, hc, hb⟩ := List.mem_flatMap.mp h
  exact eq_of_ascii_mem hd hb ▸ hc

/-- The first byte, if it is ASCII, is the first character. -/
theorem head?_of_ascii_head? {d : Char} (hd : d.toNat < 128) {cs : List Char}
    (h : (encodeChars cs).head? = some (ascii d)) : cs.head? = some d := by
  cases cs with
  | nil => cases h
  | cons c cs =>
    obtain ⟨b, bytes, hc, -⟩ := utf8EncodeChar_eq_cons c
    rw [encodeChars_cons, hc] at h
    have hb : b = ascii d := Option.some.inj h
    have hmem : ascii d ∈ String.utf8EncodeChar c := by simp [hc, hb]
    exact congrArg some (eq_of_ascii_mem hd hmem)

end Utf8

namespace Position

/-- A character moves the offset by its length. -/
@[simp] theorem offset_afterRune (p : Position) (c : Char) (length : Nat) :
    (p.afterRune c length).offset = p.offset + length := by
  unfold afterRune
  split <;> rfl

/-- A byte moves it by one. -/
@[simp] theorem offset_afterByte (p : Position) (b : UInt8) :
    (p.afterByte b).offset = p.offset + 1 := by
  unfold afterByte
  repeat' split
  all_goals rfl

/-- The position behind some characters at the beginning of a text. -/
def behind (chars : List Char) : Position where
  offset := (Utf8.encodeChars chars).length
  line := 1 + chars.count '\n'
  column := 1 + (chars.reverse.takeWhile (· ≠ '\n')).length

@[simp] theorem behind_nil : behind [] = .start := rfl

@[simp] theorem offset_behind (u : List Char) : (behind u).offset = (Utf8.encodeChars u).length := rfl

/-- One more character in front leads behind it. -/
theorem behind_concat (u : List Char) (c : Char) :
    behind (u ++ [c]) = (behind u).afterRune c (String.utf8EncodeChar c).length := by
  by_cases hc : c = '\n'
  · subst hc
    simp [behind, afterRune, Nat.add_assoc]
  · have hcount : (u ++ [c]).count '\n' = u.count '\n' := by
      simp [List.count_append, hc]
    simp [behind, afterRune, hc, hcount, Nat.add_assoc]

/-! ## Byte by byte -/

/-- Continuation bytes move nothing but the offset. -/
theorem foldl_afterByte_of_isContinuation {bytes : List UInt8}
    (h : ∀ b ∈ bytes, Utf8.isContinuation b = true) (p : Position) :
    bytes.foldl afterByte p = ⟨p.offset + bytes.length, p.line, p.column⟩ := by
  induction bytes generalizing p with
  | nil => rfl
  | cons b bytes ih =>
    have hb := h b (by simp)
    have hne : b ≠ 0x0A := by
      rintro rfl
      exact absurd hb (by decide)
    rw [List.foldl_cons, ih fun x hx => h x (by simp [hx])]
    simp [afterByte, hne, hb]
    omega

/-- The bytes of a character lead to where the character does. -/
theorem foldl_afterByte_utf8EncodeChar (c : Char) (p : Position) :
    (String.utf8EncodeChar c).foldl afterByte p =
      p.afterRune c (String.utf8EncodeChar c).length := by
  by_cases hc : c = '\n'
  · subst hc
    rfl
  · have hn := Utf8.next?_utf8EncodeChar c []
    have hnewline : (0x0A : UInt8) ∉ String.utf8EncodeChar c :=
      fun h => hc (Utf8.eq_of_ascii_mem (d := '\n') (by decide) h)
    rw [List.append_nil] at hn
    generalize String.utf8EncodeChar c = bytes at hn hnewline ⊢
    cases bytes with
    | nil => simp [Utf8.next?] at hn
    | cons lead tail =>
      have hlead : lead ≠ 0x0A := fun h => hnewline (by simp [h])
      have htail := foldl_afterByte_of_isContinuation
        (fun b hb => Utf8.isContinuation_of_mem_tail hn hb) (p.afterByte lead)
      rw [List.foldl_cons, htail]
      simp [afterByte, afterRune, hlead, hc, Utf8.not_isContinuation_of_next? hn]
      omega

/-- Reading the bytes of a text leads where reading its characters does. -/
theorem foldl_afterByte_behind (u w : List Char) :
    (Utf8.encodeChars w).foldl afterByte (behind u) = behind (u ++ w) := by
  induction w generalizing u with
  | nil => simp
  | cons c w ih =>
    rw [Utf8.encodeChars_cons, List.foldl_append, foldl_afterByte_utf8EncodeChar, ← behind_concat, ih,
      List.append_assoc]
    rfl

end Position

end ShellScript
