import ShellScript.Proofs.EscapeTable
import ShellScript.Proofs.Runes

/-!
# Decoding never grows a text

An escape is no shorter than what it stands for, so decoding gives at most as many bytes as it takes. The
text that is read from them has the three bytes of U+FFFD for each part that is not UTF-8. But only a byte
that was written by its number can be such a part, and the backslash, the letter and a digit are three
bytes too (`decode_never_grows`).
-/

namespace ShellScript

/-! ## The size of a lossy reading -/

namespace Utf8

variable {a : UInt8} {t : List UInt8}

/-- A character has no more than four bytes. -/
theorem length_utf8EncodeChar_le (c : Char) : (String.utf8EncodeChar c).length ≤ 4 := by
  rw [String.length_utf8EncodeChar]
  exact Char.utf8Size_le_four c

/-- A character whose first byte is ASCII has no other. -/
theorem utf8EncodeChar_of_lt {c : Char} (h : String.utf8EncodeChar c = a :: t) (ha : a < 0x80) : t = [] := by
  have hn := next?_utf8EncodeChar c []
  rw [List.append_nil, h] at hn
  have hwidth : (a :: t).length = width a := length_of_next? hn
  have hone : ¬1 < width a := fun hlong => not_ascii_of_width hlong ha
  rw [List.length_cons] at hwidth
  exact List.length_eq_zero_iff.mp (by omega)

/-- ASCII bytes at the start of a text are its first characters. -/
theorem drop_encodeChars {n : Nat} {cs : List Char} (h : ∀ b ∈ (encodeChars cs).take n, b < 0x80) :
    (encodeChars cs).drop n = encodeChars (cs.drop n) := by
  induction cs generalizing n with
  | nil => simp
  | cons c cs ih =>
    cases n with
    | zero => rfl
    | succ n =>
      obtain ⟨a, t, hbytes, -⟩ := utf8EncodeChar_eq_cons c
      rw [encodeChars_cons, hbytes, List.cons_append, List.take_succ_cons] at h
      obtain ⟨ha, htail⟩ := List.forall_mem_cons.mp h
      obtain rfl := utf8EncodeChar_of_lt hbytes ha
      rw [encodeChars_cons, hbytes, List.cons_append, List.drop_succ_cons, List.drop_succ_cons]
      exact ih htail

/-- How many bytes the text of a byte list has, with the three of U+FFFD for what is ill formed. -/
def lossySize (bytes : List UInt8) : Nat := (encodeChars (lossyChars bytes)).length

/-- The text of no bytes is empty. -/
theorem lossySize_nil : lossySize [] = 0 := by simp [lossySize, lossyChars]

/-- A character adds the bytes that it has. -/
theorem lossySize_of_some {bytes : List UInt8} {c : Char} {n : Nat} (h : next? bytes = some (c, n)) :
    lossySize bytes = n + lossySize (bytes.drop n) := by
  obtain ⟨-, hn⟩ := next?_eq_some_iff.mp h
  rw [lossySize, lossyChars_cons h, encodeChars_cons, List.length_append, ← hn]
  rfl

/-- A part of an ill-formed sequence adds the three bytes of U+FFFD. -/
theorem lossySize_of_none {lead : UInt8} {rest : List UInt8} (h : next? (lead :: rest) = none) :
    lossySize (lead :: rest) = 3 + lossySize (rest.drop (brokenTail lead rest)) := by
  have hsize : (String.utf8EncodeChar replacement).length = 3 := by decide
  have hchars : lossyChars (lead :: rest) =
      replacement :: lossyChars (rest.drop (brokenTail lead rest)) := by
    rw [lossyChars]
    split <;> simp_all
  rw [lossySize, hchars, encodeChars_cons, List.length_append, hsize]
  rfl

/-- A character in front adds its own bytes. -/
theorem lossySize_append (c : Char) (rest : List UInt8) :
    lossySize (String.utf8EncodeChar c ++ rest) = (String.utf8EncodeChar c).length + lossySize rest := by
  rw [lossySize_of_some (next?_utf8EncodeChar c rest), List.drop_left]

/-- Continuation bytes that no lead claims are one U+FFFD each. -/
theorem lossySize_append_of_isContinuation (ht : ∀ b ∈ t, isContinuation b = true) (rest : List UInt8) :
    lossySize (t ++ rest) = 3 * t.length + lossySize rest := by
  induction t with
  | nil => simp
  | cons b t ih =>
    obtain ⟨hb, ht⟩ := List.forall_mem_cons.mp ht
    have hnone := next?_of_isContinuation hb (t ++ rest)
    have htail : brokenTail b (t ++ rest) = 0 := by
      refine Nat.eq_zero_of_not_pos fun hpos => ?_
      obtain ⟨hlead, -⟩ := brokenTail_pos.mp hpos
      have hleads := lead_of_width b
      rw [isContinuation_iff] at hb
      rcases width_of_two_lt hlead with hw | hw <;> omega
    rw [List.cons_append, lossySize_of_none hnone, htail, List.drop_zero, ih ht, List.length_cons]
    omega

/-- One byte in front adds no more than a U+FFFD. What it claims of the bytes behind it was ill formed
without it. -/
theorem lossySize_cons_le (lead : UInt8) (rest : List UInt8) :
    lossySize (lead :: rest) ≤ 3 + lossySize rest := by
  cases h : next? (lead :: rest) with
  | some x =>
    obtain ⟨c, n⟩ := x
    obtain ⟨⟨more, hmore⟩, rfl⟩ := next?_eq_some_iff.mp h
    obtain ⟨a, t, hbytes, hn⟩ := utf8EncodeChar_eq_cons c
    have hchar := lossySize_append c more
    rw [hbytes, List.cons_append] at hmore
    obtain ⟨rfl, rfl⟩ := List.cons.inj hmore
    have htail := lossySize_append_of_isContinuation (fun b hb => isContinuation_of_mem_tail hn hb) more
    rw [hbytes, List.cons_append, List.length_cons] at hchar
    omega
  | none =>
    have hsplit := lossySize_append_of_isContinuation (t := rest.take (brokenTail lead rest))
      (fun b hb => isContinuation_of_mem_brokenTail hb) (rest.drop (brokenTail lead rest))
    rw [List.take_append_drop] at hsplit
    rw [lossySize_of_none h]
    omega

end Utf8

/-! ## What an escape costs -/

namespace Escape

variable {rest out : List UInt8} {used : Nat}

/-- An escape has only ASCII characters. -/
theorem lt_of_mem_escape? (h : escape? rest = some (out, used)) :
    ∀ b ∈ rest.take (used + 1), b < 0x80 := by
  cases rest with
  | nil => cases h
  | cons code rest =>
    rcases escape?_eq_some h with ⟨l, hl, rfl, -, rfl⟩ | ⟨e, he, rfl, hread⟩
    · have htable : ∀ l ∈ letters, Utf8.ascii l.2 < 0x80 := by decide
      simpa using htable l hl
    · have htable : ∀ e ∈ numerics, Utf8.ascii e.letter < 0x80 := by simp [numerics, Utf8.ascii]
      obtain ⟨rfl, -, -⟩ := Numeric.read?_eq_some hread
      have hmost : (digits e.radix (rest.take e.most)).length ≤ e.most :=
        (length_digits_le e.radix _).trans (List.length_take_le _ _)
      have hdigits := lt_of_mem_digits e.radix (rest.take e.most)
      rw [List.take_take, Nat.min_eq_left hmost] at hdigits
      rw [List.take_succ_cons]
      exact List.forall_mem_cons.mpr ⟨htable e he, hdigits⟩

/-- Whether so many bytes behind the letter of an escape are enough for what it stands for: the bytes of a
character, or any byte, which may become a U+FFFD. -/
inductive Pays (used : Nat) : List UInt8 → Prop
  | character (c : Char) (enough : (String.utf8EncodeChar c).length ≤ used + 2) :
    Pays used (String.utf8EncodeChar c)
  | byte (b : UInt8) (digit : 1 ≤ used) : Pays used [b]

/-- The digits of a byte pay for it. -/
theorem pays_of_byte? {n radix : Nat} (h : byte? n = some out) (hn : n < radix ^ used) : Pays used out := by
  cases h
  by_cases hzero : used = 0
  · -- without digits the number is zero, and that is a character
    rw [hzero, pow_zero] at hn
    obtain rfl : n = 0 := by omega
    have hone : (String.utf8EncodeChar (Char.ofNat 0)).length = 1 := by decide
    exact .character (Char.ofNat 0) (by omega)
  · exact .byte _ (Nat.one_le_iff_ne_zero.mpr hzero)

/-- Hexadecimal digits pay for the character whose code point they are. -/
theorem pays_of_character? {n : Nat} (h : character? n = some out) (hdigit : 1 ≤ used)
    (hn : n < 16 ^ used) : Pays used out := by
  rw [character?] at h
  split at h
  · cases h
  · cases h
    refine .character (Char.ofNat n) ?_
    by_cases hone : used = 1
    · -- one digit is enough for an ASCII character only
      have hsmall : ∀ n < 16, (String.utf8EncodeChar (Char.ofNat n)).length = 1 := by decide
      rw [hone, pow_one] at hn
      rw [hsmall n hn]
      omega
    · have hfour := Utf8.length_utf8EncodeChar_le (Char.ofNat n)
      omega

/-- So every escape pays for what it stands for. -/
theorem pays_of_escape? (h : escape? rest = some (out, used)) : Pays used out := by
  cases rest with
  | nil => cases h
  | cons code rest =>
    rcases escape?_eq_some h with ⟨l, hl, -, rfl, rfl⟩ | ⟨e, he, -, hread⟩
    · have htable : ∀ l ∈ letters, l.1.toNat < 128 := by decide
      rw [← Utf8.utf8EncodeChar_ascii (htable l hl)]
      exact .character l.1 (by rw [Utf8.utf8EncodeChar_ascii (htable l hl)]; simp)
    · have htable : ∀ e ∈ numerics, 1 < e.radix ∧
          (e.bytes? = byte? ∨ e.bytes? = character? ∧ e.radix = 16 ∧ e.fewest = 1) := by simp [numerics]
      obtain ⟨hone, hbytes⟩ := htable e he
      obtain ⟨rfl, hfewest, hout⟩ := Numeric.read?_eq_some hread
      have hvalue := ofDigits_digits_lt hone (rest.take e.most)
      rcases hbytes with hbyte | ⟨hchar, hradix, hdigit⟩
      · rw [hbyte] at hout
        exact pays_of_byte? hout hvalue
      · rw [hchar] at hout
        exact pays_of_character? hout (hdigit ▸ hfewest) (hradix ▸ hvalue)

/-- What is paid for is no longer than its escape, and adds no more to a text. -/
theorem Pays.size_le (h : Pays used out) : out.length ≤ used + 2 ∧
    ∀ more, Utf8.lossySize (out ++ more) ≤ used + 2 + Utf8.lossySize more := by
  cases h with
  | character c enough =>
    refine ⟨enough, fun more => ?_⟩
    rw [Utf8.lossySize_append]
    omega
  | byte b digit =>
    refine ⟨by rw [List.length_singleton]; omega, fun more => ?_⟩
    have hcons := Utf8.lossySize_cons_le b more
    rw [List.singleton_append]
    omega

/-- Each step gives no more bytes than it takes. -/
theorem length_decodeBytes_le (bytes : List UInt8) : (decodeBytes bytes).1.length ≤ bytes.length := by
  -- by what decoding takes at once: a backslash with its escape, or one byte
  induction bytes using drop_induction with
  | nil => simp [decodeBytes_nil]
  | cons b rest ih =>
    have hrest : (decodeBytes rest).1.length ≤ rest.length := ih 0
    rw [List.length_cons]
    by_cases hb : b = backslash
    · rw [hb, decodeBytes_backslash]
      split
      · exact Nat.zero_le _
      · cases hescape : escape? rest with
        | none =>
          rw [Option.elim_none, Prod.map_fst, List.length_cons]
          omega
        | some x =>
          obtain ⟨out, used⟩ := x
          have hmore := ih (used + 1)
          have hused := lt_length_of_escape? hescape
          have hsize := (pays_of_escape? hescape).size_le.1
          rw [List.length_drop] at hmore
          rw [Option.elim_some, Prod.map_fst, List.length_append]
          dsimp only
          omega
    · rw [decodeBytes_cons hb, Prod.map_fst, List.length_cons]
      omega

/-- Each step adds no more to the text than it takes from it, and it takes whole characters. -/
theorem lossySize_decodeBytes_le (cs : List Char) :
    Utf8.lossySize (decodeBytes (Utf8.encodeChars cs)).1 ≤ (Utf8.encodeChars cs).length := by
  -- by what decoding takes at once: a backslash with its escape, or one character
  induction cs using drop_induction with
  | nil => simp [decodeBytes_nil, Utf8.lossySize_nil]
  | cons c cs ih =>
    have hrest : Utf8.lossySize (decodeBytes (Utf8.encodeChars cs)).1 ≤ (Utf8.encodeChars cs).length := ih 0
    rw [Utf8.encodeChars_cons, List.length_append]
    by_cases hc : c = '\\'
    · have hbytes : String.utf8EncodeChar c = [backslash] := by rw [hc]; rfl
      rw [hbytes, List.singleton_append, List.length_singleton, decodeBytes_backslash]
      split
      · simp [Utf8.lossySize_nil]
      · cases hescape : escape? (Utf8.encodeChars cs) with
        | none =>
          have hcopied : Utf8.lossySize (backslash :: (decodeBytes (Utf8.encodeChars cs)).1) = 1 + _ :=
            Utf8.lossySize_append '\\' (decodeBytes (Utf8.encodeChars cs)).1
          rw [Option.elim_none, Prod.map_fst]
          omega
        | some x =>
          obtain ⟨out, used⟩ := x
          have hmore := ih (used + 1)
          have hused := lt_length_of_escape? hescape
          have hsize := (pays_of_escape? hescape).size_le.2
            (decodeBytes ((Utf8.encodeChars cs).drop (used + 1))).1
          -- an escape ends between two characters, so what is left is text again
          rw [← Utf8.drop_encodeChars (lt_of_mem_escape? hescape), List.length_drop] at hmore
          rw [Option.elim_some, Prod.map_fst]
          dsimp only
          omega
    · have hplain : DecodesTo (String.utf8EncodeChar c) (String.utf8EncodeChar c) :=
        .of_not_mem fun hmem => hc (Utf8.eq_of_ascii_mem (d := '\\') (by decide) hmem)
      rw [hplain, Prod.map_fst, Utf8.lossySize_append]
      omega

/-- Decoding never gives more bytes than it takes. The text that is read from them has no more either. -/
theorem decode_never_grows :
    (∀ bytes, (decodeBytes bytes).1.length ≤ bytes.length) ∧
      ∀ text, (Utf8.encode (decode text).1).length ≤ (Utf8.encode text).length := by
  refine ⟨length_decodeBytes_le, fun text => ?_⟩
  have hsize := lossySize_decodeBytes_le text.toList
  simpa [decode, Utf8.encode, Utf8.decodeLossy, Utf8.lossySize] using hsize

end Escape

end ShellScript
