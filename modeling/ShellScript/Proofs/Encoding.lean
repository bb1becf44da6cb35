import ShellScript.Text.Utf8

/-!
# Decoding what was encoded

Facts on `Utf8.next?`: it reads a character exactly from the bytes of that character
(`next?_eq_some_iff`), it looks at certain bytes only (`next?_takeWhile`), and bytes further on make no
difference if a sequence is whole (`Complete`).
-/

namespace ShellScript.Utf8

/-! ## The byte ranges as numbers -/

/-- Continuation bytes are those from 80 to BF. -/
theorem isContinuation_iff {b : UInt8} :
    isContinuation b = true ↔ 0x80 ≤ b.toNat ∧ b.toNat ≤ 0xBF := by
  simp only [isContinuation, Bool.and_eq_true, decide_eq_true_eq, UInt8.le_iff_toNat_le,
    UInt8.reduceToNat]

/-- The lead of a character says how many bytes it has. -/
theorem width_eq {a : UInt8} : width a =
    if 0xC2 ≤ a.toNat ∧ a.toNat ≤ 0xDF then 2
    else if 0xE0 ≤ a.toNat ∧ a.toNat ≤ 0xEF then 3
    else if 0xF0 ≤ a.toNat ∧ a.toNat ≤ 0xF4 then 4
    else 1 := by
  simp only [width, Bool.and_eq_true, decide_eq_true_eq, UInt8.le_iff_toNat_le, UInt8.reduceToNat]

/-- Behind some leads the second byte is bounded further: overlong sequences, surrogates and what is above
U+10FFFF are excluded. -/
theorem mayFollow_iff {a b : UInt8} : mayFollow a b = true ↔
    (0x80 ≤ b.toNat ∧ b.toNat ≤ 0xBF) ∧ (a.toNat = 0xE0 → 0xA0 ≤ b.toNat) ∧
      (a.toNat = 0xED → b.toNat ≤ 0x9F) ∧ (a.toNat = 0xF0 → 0x90 ≤ b.toNat) ∧
      (a.toNat = 0xF4 → b.toNat ≤ 0x8F) := by
  simp only [mayFollow, ← UInt8.toNat_inj, UInt8.reduceToNat]
  repeat' split
  all_goals
    simp only [isContinuation_iff, Bool.and_eq_true, decide_eq_true_eq, UInt8.le_iff_toNat_le,
      UInt8.reduceToNat]
    omega

/-- A character has up to four bytes. -/
theorem width_cases (a : UInt8) : width a = 1 ∨ width a = 2 ∨ width a = 3 ∨ width a = 4 := by
  rw [width_eq]
  repeat' split
  all_goals simp

/-- The lead bytes of the longer sequences. -/
theorem lead_of_width (a : UInt8) : (width a = 2 → 0xC2 ≤ a.toNat ∧ a.toNat ≤ 0xDF) ∧
    (width a = 3 → 0xE0 ≤ a.toNat ∧ a.toNat ≤ 0xEF) ∧
    (width a = 4 → 0xF0 ≤ a.toNat ∧ a.toNat ≤ 0xF4) := by
  rw [width_eq]
  repeat' split
  all_goals omega

/-- The lead of several bytes is not ASCII. -/
theorem not_ascii_of_width {a : UInt8} (h : 1 < width a) : ¬ a < 0x80 := by
  rw [width_eq] at h
  change ¬ a.toNat < 0x80
  split at h
  · omega
  · split at h
    · omega
    · split at h <;> omega

/-- A second byte is a continuation byte. -/
theorem isContinuation_of_mayFollow {a b : UInt8} (h : mayFollow a b = true) :
    isContinuation b = true := by
  rw [mayFollow_iff] at h
  exact isContinuation_iff.mpr h.1

/-! ## One sequence, by the width of its lead -/

/-- A byte that leads no others is a character if it is ASCII. -/
theorem next?_of_width_one {a : UInt8} (hw : width a = 1) (rest : List UInt8) :
    next? (a :: rest) = if a < 0x80 then some (Char.ofNat a.toNat, 1) else none := by
  simp [next?, hw]

/-- A character of two bytes. -/
theorem next?_of_width_two {a : UInt8} (hw : width a = 2) (rest : List UInt8) :
    next? (a :: rest) = match rest with
      | b :: _ =>
        if isContinuation b then some (Char.ofNat (a.toNat % 32 * 64 + tailBits b), 2) else none
      | [] => none := by
  have ha : ¬ a < 0x80 := not_ascii_of_width (by omega)
  rcases rest with _ | ⟨b, rest⟩ <;> simp [next?, ha, hw]

/-- A character of three bytes. -/
theorem next?_of_width_three {a : UInt8} (hw : width a = 3) (rest : List UInt8) :
    next? (a :: rest) = match rest with
      | b :: c :: _ =>
        if mayFollow a b && isContinuation c then
          some (Char.ofNat ((a.toNat % 16 * 64 + tailBits b) * 64 + tailBits c), 3)
        else none
      | _ => none := by
  have ha : ¬ a < 0x80 := not_ascii_of_width (by omega)
  rcases rest with _ | ⟨b, _ | ⟨c, rest⟩⟩ <;> simp [next?, ha, hw]

/-- A character of four bytes. -/
theorem next?_of_width_four {a : UInt8} (hw : width a = 4) (rest : List UInt8) :
    next? (a :: rest) = match rest with
      | b :: c :: d :: _ =>
        if mayFollow a b && isContinuation c && isContinuation d then
          some (Char.ofNat (((a.toNat % 8 * 64 + tailBits b) * 64 + tailBits c) * 64 + tailBits d),
            4)
        else none
      | _ => none := by
  have ha : ¬ a < 0x80 := not_ascii_of_width (by omega)
  rcases rest with _ | ⟨b, _ | ⟨c, _ | ⟨d, rest⟩⟩⟩ <;> simp [next?, ha, hw]

/-- A sequence takes as many bytes as its lead announces. -/
theorem length_of_next? {a : UInt8} {rest : List UInt8} {c : Char} {n : Nat}
    (h : next? (a :: rest) = some (c, n)) : n = width a := by
  rcases width_cases a with hw | hw | hw | hw <;> rw [hw]
  · rw [next?_of_width_one hw] at h
    split at h <;> cases h
    rfl
  · rw [next?_of_width_two hw] at h
    split at h
    · split at h <;> cases h
      rfl
    · cases h
  · rw [next?_of_width_three hw] at h
    split at h
    · split at h <;> cases h
      rfl
    · cases h
  · rw [next?_of_width_four hw] at h
    split at h
    · split at h <;> cases h
      rfl
    · cases h

/-- A character takes no more bytes than there are. -/
theorem length_nextRune_le (lead : UInt8) (rest : List UInt8) :
    (nextRune lead rest).2 ≤ (lead :: rest).length := by
  unfold nextRune
  cases hn : next? (lead :: rest) with
  | none => simp
  | some x => exact (next?_bounds hn).2

/-- No character starts with a continuation byte. -/
theorem next?_of_isContinuation {a : UInt8} (h : isContinuation a = true) (rest : List UInt8) :
    next? (a :: rest) = none := by
  rw [isContinuation_iff] at h
  have ha : ¬ a < 0x80 := by
    change ¬ a.toNat < 0x80
    omega
  have hw : width a = 1 := by
    rw [width_eq, if_neg (by omega), if_neg (by omega), if_neg (by omega)]
  rw [next?_of_width_one hw, if_neg ha]

/-- So where a character starts, none stands. -/
theorem not_isContinuation_of_next? {a : UInt8} {rest : List UInt8} {x : Char × Nat}
    (h : next? (a :: rest) = some x) : isContinuation a = false := by
  rw [Bool.eq_false_iff]
  intro ha
  rw [next?_of_isContinuation ha] at h
  cases h

/-- In a sequence, only the lead is no continuation byte. -/
theorem isContinuation_of_mem_tail {a b : UInt8} {tail : List UInt8} {c : Char}
    (h : next? (a :: tail) = some (c, tail.length + 1)) (hb : b ∈ tail) :
    isContinuation b = true := by
  have hm (x : UInt8) : mayFollow a x = true → isContinuation x = true :=
    isContinuation_of_mayFollow
  have hl := length_of_next? h
  rcases width_cases a with hw | hw | hw | hw
  · rw [hw] at hl
    simp_all
  · rw [next?_of_width_two hw] at h
    rcases tail with _ | ⟨x, _ | ⟨y, tail⟩⟩ <;> simp_all
  · rw [next?_of_width_three hw] at h
    rcases tail with _ | ⟨x, _ | ⟨y, _ | ⟨z, tail⟩⟩⟩ <;> simp_all
    rcases hb with rfl | rfl
    · exact hm _ h.1.1
    · exact h.1.2
  · rw [next?_of_width_four hw] at h
    rcases tail with _ | ⟨x, _ | ⟨y, _ | ⟨z, _ | ⟨t, tail⟩⟩⟩⟩ <;> simp_all
    rcases hb with rfl | rfl | rfl
    · exact hm _ h.1.1.1
    · exact h.1.1.2
    · exact h.1.2

/-! ## Bytes that do not matter -/

/-- Of the bytes after the lead, only the continuation bytes that it announces count. -/
theorem next?_takeWhile (a : UInt8) (rest : List UInt8) :
    next? (a :: (rest.takeWhile isContinuation).take (width a - 1)) = next? (a :: rest) := by
  have hm (x : UInt8) (h : isContinuation x = false) : mayFollow a x = false := by
    rw [Bool.eq_false_iff] at h ⊢
    exact fun h' => h (isContinuation_of_mayFollow h')
  rcases width_cases a with hw | hw | hw | hw
  · rw [next?_of_width_one hw, next?_of_width_one hw]
  · rw [next?_of_width_two hw, next?_of_width_two hw, hw]
    rcases rest with _ | ⟨b, rest⟩
    · rfl
    · cases hb : isContinuation b <;> simp [hb]
  · rw [next?_of_width_three hw, next?_of_width_three hw, hw]
    rcases rest with _ | ⟨b, _ | ⟨c, rest⟩⟩
    · rfl
    · cases hb : isContinuation b <;> simp [hb]
    · cases hb : isContinuation b <;> cases hc : isContinuation c <;> simp [hb, hc, hm]
  · rw [next?_of_width_four hw, next?_of_width_four hw, hw]
    rcases rest with _ | ⟨b, _ | ⟨c, _ | ⟨d, rest⟩⟩⟩
    · rfl
    · cases hb : isContinuation b <;> simp [hb]
    · cases hb : isContinuation b <;> cases hc : isContinuation c <;> simp [hb, hc]
    · cases hb : isContinuation b <;> cases hc : isContinuation c <;>
        cases hd : isContinuation d <;> simp [hb, hc, hd, hm]

/-- What follows a sequence does not change it. -/
theorem next?_append {bytes : List UInt8} {x : Char × Nat} (h : next? bytes = some x)
    (more : List UInt8) : next? (bytes ++ more) = some x := by
  match bytes with
  | [] => cases h
  | a :: rest =>
    rw [List.cons_append]
    rcases width_cases a with hw | hw | hw | hw
    · rwa [next?_of_width_one hw] at h ⊢
    · rw [next?_of_width_two hw] at h ⊢
      rcases rest with _ | ⟨b, rest⟩
      · cases h
      · exact h
    · rw [next?_of_width_three hw] at h ⊢
      rcases rest with _ | ⟨b, _ | ⟨c, rest⟩⟩
      · cases h
      · cases h
      · exact h
    · rw [next?_of_width_four hw] at h ⊢
      rcases rest with _ | ⟨b, _ | ⟨c, _ | ⟨d, rest⟩⟩⟩
      · cases h
      · cases h
      · cases h
      · exact h

/-- Continuation bytes are looked for no further than up to the first other byte. -/
theorem takeWhile_append_of_not_isContinuation {b : UInt8} (hb : isContinuation b = false)
    (before after : List UInt8) :
    (before ++ b :: after).takeWhile isContinuation = before.takeWhile isContinuation := by
  induction before with
  | nil => simp [hb]
  | cons x before ih =>
    cases hx : isContinuation x <;> simp [hx, ih]

/-- A byte that continues no sequence cuts off whatever stands before it. -/
theorem next?_append_of_not_isContinuation {b : UInt8} (hb : isContinuation b = false) (a : UInt8)
    (before after more : List UInt8) :
    next? (a :: before ++ b :: after ++ more) = next? (a :: before ++ b :: after) := by
  -- the continuation bytes behind the lead end before `b` at the latest
  have hcut (rest : List UInt8) := takeWhile_append_of_not_isContinuation hb before rest
  rw [List.append_assoc, List.cons_append, List.cons_append, List.cons_append,
    ← next?_takeWhile, hcut, ← next?_takeWhile a (before ++ b :: after), hcut]

/-- No sequence that starts within the bytes depends on bytes after them. -/
def Complete (bytes : List UInt8) : Prop :=
  ∀ a rest, a :: rest <:+ bytes → ∀ more, next? (a :: rest ++ more) = next? (a :: rest)

/-- Bytes that end in a whole sequence are complete. -/
theorem complete_append {bytes : List UInt8} {c : Char} (h : next? bytes = some (c, bytes.length))
    (before : List UInt8) : Complete (before ++ bytes) := by
  match bytes with
  | [] => cases h
  | b :: tail =>
    rintro a rest ⟨u, hu⟩ more
    rcases List.append_eq_append_iff.mp hu with ⟨v, rfl, hr⟩ | ⟨v, rfl, hr⟩
    · match v with
      | [] =>
        rw [List.nil_append] at hr
        rw [hr, next?_append h, h]
      | x :: v =>
        obtain ⟨rfl, rfl⟩ := List.cons.inj hr
        exact next?_append_of_not_isContinuation (not_isContinuation_of_next? h) a v tail more
    · match v with
      | [] =>
        rw [List.nil_append] at hr
        rw [← hr, next?_append h, h]
      | x :: v =>
        -- within the last sequence there are only continuation bytes, which start nothing
        obtain ⟨rfl, rfl⟩ := List.cons.inj hr
        have ha := isContinuation_of_mem_tail h (by simp : a ∈ v ++ a :: rest)
        rw [List.cons_append, next?_of_isContinuation ha, next?_of_isContinuation ha]

/-! ## Encoded characters -/

section

variable {v : Nat} (rest : List UInt8)

/-- A number below 256 is the value of its byte. -/
private theorem toNat_byte {n : Nat} (h : n < 256) : (UInt8.ofNat n).toNat = n :=
  UInt8.toNat_ofNat_of_lt h

/-- Six bits make a continuation byte. -/
private theorem isContinuation_byte (n : Nat) :
    isContinuation (UInt8.ofNat (n % 0x40 + 0x80)) = true := by
  rw [isContinuation_iff, toNat_byte (by omega)]
  omega

/-- The encoding of a number below 80 is read as its character. -/
theorem next?_one_byte (h : v < 0x80) :
    next? (UInt8.ofNat v :: rest) = some (Char.ofNat v, 1) := by
  have hw : width (UInt8.ofNat v) = 1 := by
    rw [width_eq, toNat_byte (by omega), if_neg (by omega), if_neg (by omega), if_neg (by omega)]
  have ha : UInt8.ofNat v < 0x80 := by
    change (UInt8.ofNat v).toNat < 0x80
    rwa [toNat_byte (by omega)]
  rw [next?_of_width_one hw, if_pos ha, toNat_byte (by omega)]

/-- So is the encoding of two bytes of a number below 800. -/
theorem next?_two_bytes (h : 0x80 ≤ v) (h' : v < 0x800) :
    next? (UInt8.ofNat (v / 64 % 0x20 + 0xC0) :: UInt8.ofNat (v % 0x40 + 0x80) :: rest) =
      some (Char.ofNat v, 2) := by
  have hw : width (UInt8.ofNat (v / 64 % 0x20 + 0xC0)) = 2 := by
    rw [width_eq, toNat_byte (by omega), if_pos (by omega)]
  rw [next?_of_width_two hw]
  simp only [isContinuation_byte, if_true, tailBits]
  rw [toNat_byte (by omega), toNat_byte (by omega)]
  refine congrArg (fun n => some (Char.ofNat n, 2)) ?_
  omega

/-- So is the encoding of three bytes of a larger one, unless it is a surrogate. -/
theorem next?_three_bytes (h : 0x800 ≤ v) (h' : v < 0x10000)
    (hsurrogate : v < 0xD800 ∨ 0xDFFF < v) :
    next? (UInt8.ofNat (v / 4096 % 0x10 + 0xE0) :: UInt8.ofNat (v / 64 % 0x40 + 0x80) ::
      UInt8.ofNat (v % 0x40 + 0x80) :: rest) = some (Char.ofNat v, 3) := by
  have hw : width (UInt8.ofNat (v / 4096 % 0x10 + 0xE0)) = 3 := by
    rw [width_eq, toNat_byte (by omega), if_neg (by omega), if_pos (by omega)]
  have hm : mayFollow (UInt8.ofNat (v / 4096 % 0x10 + 0xE0))
      (UInt8.ofNat (v / 64 % 0x40 + 0x80)) = true := by
    rw [mayFollow_iff, toNat_byte (by omega), toNat_byte (by omega)]
    omega
  rw [next?_of_width_three hw]
  simp only [hm, isContinuation_byte, Bool.and_self, if_true, tailBits]
  rw [toNat_byte (by omega), toNat_byte (by omega), toNat_byte (by omega)]
  refine congrArg (fun n => some (Char.ofNat n, 3)) ?_
  omega

/-- So is the encoding of four bytes of any other code point. -/
theorem next?_four_bytes (h : 0x10000 ≤ v) (h' : v < 0x110000) :
    next? (UInt8.ofNat (v / 262144 % 0x08 + 0xF0) :: UInt8.ofNat (v / 4096 % 0x40 + 0x80) ::
      UInt8.ofNat (v / 64 % 0x40 + 0x80) :: UInt8.ofNat (v % 0x40 + 0x80) :: rest) =
      some (Char.ofNat v, 4) := by
  have hw : width (UInt8.ofNat (v / 262144 % 0x08 + 0xF0)) = 4 := by
    rw [width_eq, toNat_byte (by omega), if_neg (by omega), if_neg (by omega), if_pos (by omega)]
  have hm : mayFollow (UInt8.ofNat (v / 262144 % 0x08 + 0xF0))
      (UInt8.ofNat (v / 4096 % 0x40 + 0x80)) = true := by
    rw [mayFollow_iff, toNat_byte (by omega), toNat_byte (by omega)]
    omega
  rw [next?_of_width_four hw]
  simp only [hm, isContinuation_byte, Bool.and_self, if_true, tailBits]
  rw [toNat_byte (by omega), toNat_byte (by omega), toNat_byte (by omega), toNat_byte (by omega)]
  refine congrArg (fun n => some (Char.ofNat n, 4)) ?_
  omega

end

/-- The bytes of a character read as that character. -/
theorem next?_utf8EncodeChar (c : Char) (rest : List UInt8) :
    next? (String.utf8EncodeChar c ++ rest) = some (c, (String.utf8EncodeChar c).length) := by
  have hv : c.val.toNat < 0xD800 ∨ 0xDFFF < c.val.toNat ∧ c.val.toNat < 0x110000 := c.valid
  have hc : Char.ofNat c.val.toNat = c := Char.ofNat_toNat c
  generalize hn : c.val.toNat = v at *
  rw [← hc] at hn ⊢
  unfold String.utf8EncodeChar
  simp only [hn]
  split
  · exact next?_one_byte rest (by omega)
  · split
    · exact next?_two_bytes rest (by omega) (by omega)
    · split
      · exact next?_three_bytes rest (by omega) (by omega) (by omega)
      · exact next?_four_bytes rest (by omega) (by omega)

/-- The bytes of a character are a lead and bytes that continue it. -/
theorem utf8EncodeChar_eq_cons (c : Char) :
    ∃ a t, String.utf8EncodeChar c = a :: t ∧ next? (a :: t) = some (c, t.length + 1) := by
  have hn := next?_utf8EncodeChar c []
  cases hbytes : String.utf8EncodeChar c with
  | nil => simp [hbytes, next?] at hn
  | cons a t =>
    rw [List.append_nil, hbytes] at hn
    exact ⟨a, t, rfl, hn⟩

/-! ## Decoded bytes -/

section

variable {a b c d : UInt8}

/-- A number that is no surrogate is the value of its character. -/
private theorem toNat_val_ofNat {v : Nat} (h : v < 0xD800 ∨ 0xDFFF < v ∧ v < 0x110000) :
    (Char.ofNat v).val.toNat = v := by
  have hv : v.isValidChar := h
  rw [Char.ofNat, dif_pos hv]
  rfl

/-- A number is the byte whose value it is. -/
private theorem ofNat_eq {n : Nat} (a : UInt8) (h : n = a.toNat) : UInt8.ofNat n = a :=
  h ▸ UInt8.ofNat_toNat

/-- An ASCII byte is the encoding of its character. -/
theorem utf8EncodeChar_one_byte (ha : a < 0x80) :
    String.utf8EncodeChar (Char.ofNat a.toNat) = [a] := by
  have hlead : a.toNat < 0x80 := ha
  unfold String.utf8EncodeChar
  rw [toNat_val_ofNat (by omega), if_pos (by omega), ofNat_eq a rfl]

/-- Two bytes that make a character are its encoding. -/
theorem utf8EncodeChar_two_bytes (ha : width a = 2) (hb : isContinuation b = true) :
    String.utf8EncodeChar (Char.ofNat (a.toNat % 32 * 64 + tailBits b)) = [a, b] := by
  have hlead := (lead_of_width a).1 ha
  rw [isContinuation_iff] at hb
  unfold String.utf8EncodeChar tailBits
  rw [toNat_val_ofNat (by omega), if_neg (by omega), if_pos (by omega), ofNat_eq a (by omega),
    ofNat_eq b (by omega)]

/-- So are three, if the second may follow the lead. -/
theorem utf8EncodeChar_three_bytes (ha : width a = 3) (hb : mayFollow a b = true)
    (hc : isContinuation c = true) :
    String.utf8EncodeChar (Char.ofNat ((a.toNat % 16 * 64 + tailBits b) * 64 + tailBits c)) =
      [a, b, c] := by
  have hlead := (lead_of_width a).2.1 ha
  rw [mayFollow_iff] at hb
  rw [isContinuation_iff] at hc
  unfold String.utf8EncodeChar tailBits
  rw [toNat_val_ofNat (by omega), if_neg (by omega), if_neg (by omega), if_pos (by omega),
    ofNat_eq a (by omega), ofNat_eq b (by omega), ofNat_eq c (by omega)]

/-- So are four, if the second may follow the lead. -/
theorem utf8EncodeChar_four_bytes (ha : width a = 4) (hb : mayFollow a b = true)
    (hc : isContinuation c = true) (hd : isContinuation d = true) :
    String.utf8EncodeChar
        (Char.ofNat (((a.toNat % 8 * 64 + tailBits b) * 64 + tailBits c) * 64 + tailBits d)) =
      [a, b, c, d] := by
  have hlead := (lead_of_width a).2.2 ha
  rw [mayFollow_iff] at hb
  rw [isContinuation_iff] at hc hd
  unfold String.utf8EncodeChar tailBits
  rw [toNat_val_ofNat (by omega), if_neg (by omega), if_neg (by omega), if_neg (by omega),
    ofNat_eq a (by omega), ofNat_eq b (by omega), ofNat_eq c (by omega), ofNat_eq d (by omega)]

end

/-- Bytes that read as a character begin with the bytes of that character. -/
theorem utf8EncodeChar_of_next? {bytes : List UInt8} {c : Char} {n : Nat}
    (h : next? bytes = some (c, n)) :
    String.utf8EncodeChar c <+: bytes ∧ n = (String.utf8EncodeChar c).length := by
  match bytes with
  | [] => cases h
  | a :: rest =>
    -- by the number of bytes that the lead announces; each of them was checked to be there
    rcases width_cases a with hw | hw | hw | hw
    · rw [next?_of_width_one hw] at h
      split at h <;> cases h
      rename_i ha
      rw [utf8EncodeChar_one_byte ha]
      exact ⟨⟨rest, rfl⟩, rfl⟩
    · rw [next?_of_width_two hw] at h
      split at h
      · rename_i b rest
        split at h <;> cases h
        rename_i hb
        rw [utf8EncodeChar_two_bytes hw hb]
        exact ⟨⟨rest, rfl⟩, rfl⟩
      · cases h
    · rw [next?_of_width_three hw] at h
      split at h
      · rename_i b c rest
        split at h <;> cases h
        rename_i hbc
        obtain ⟨hb, hc⟩ := Bool.and_eq_true_iff.mp hbc
        rw [utf8EncodeChar_three_bytes hw hb hc]
        exact ⟨⟨rest, rfl⟩, rfl⟩
      · cases h
    · rw [next?_of_width_four hw] at h
      split at h
      · rename_i b c d rest
        split at h <;> cases h
        rename_i hbcd
        obtain ⟨hbc, hd⟩ := Bool.and_eq_true_iff.mp hbcd
        obtain ⟨hb, hc⟩ := Bool.and_eq_true_iff.mp hbc
        rw [utf8EncodeChar_four_bytes hw hb hc hd]
        exact ⟨⟨rest, rfl⟩, rfl⟩
      · cases h

/-- The well-formed sequences are the bytes of the characters. -/
theorem next?_eq_some_iff {bytes : List UInt8} {c : Char} {n : Nat} :
    next? bytes = some (c, n) ↔
      String.utf8EncodeChar c <+: bytes ∧ n = (String.utf8EncodeChar c).length := by
  refine ⟨utf8EncodeChar_of_next?, ?_⟩
  rintro ⟨⟨rest, rfl⟩, rfl⟩
  exact next?_utf8EncodeChar c rest

/-- Bytes that do not read as a character begin with the bytes of none. -/
theorem next?_eq_none_iff {bytes : List UInt8} :
    next? bytes = none ↔ ∀ c, ¬String.utf8EncodeChar c <+: bytes := by
  rw [Option.eq_none_iff_forall_ne_some]
  constructor
  · intro h c hc
    exact h _ (next?_eq_some_iff.mpr ⟨hc, rfl⟩)
  · rintro h ⟨c, n⟩ hn
    exact h c (next?_eq_some_iff.mp hn).1

/-! ## Whole texts -/

/-- A character that bytes begin with is decoded first. -/
theorem lossyChars_cons {c : Char} {n : Nat} {bytes : List UInt8} (h : next? bytes = some (c, n)) :
    lossyChars bytes = c :: lossyChars (bytes.drop n) := by
  cases bytes with
  | nil => simp [next?] at h
  | cons a rest =>
    rw [lossyChars]
    split <;> simp_all

/-- Nothing is lost of characters that were encoded. -/
theorem lossyChars_encodeChars (cs : List Char) : lossyChars (encodeChars cs) = cs := by
  induction cs with
  | nil => simp [encodeChars, lossyChars]
  | cons c cs ih =>
    have hc : encodeChars (c :: cs) = String.utf8EncodeChar c ++ encodeChars cs := rfl
    rw [hc, lossyChars_cons (next?_utf8EncodeChar c _), List.drop_left, ih]

/-- Nor is anything lost of a text. -/
theorem decodeLossy_encode (s : String) : decodeLossy (encode s) = s := by
  rw [decodeLossy, encode, lossyChars_encodeChars, String.ofList_toList]

end ShellScript.Utf8
