import ShellScript.Proofs.Escapes

/-!
# The table of escapes

What the table of escapes says, apart from how text is decoded: which letters stand for a byte (`letters`),
which escapes are numbers, with how many digits, and what the numbers stand for (`numerics`). `byTable`
takes a text byte by byte and every escape at its longest. Decoding comes to the same, and the word that it
keeps a number in never overflows (`decodeBytes_eq_byTable`).
-/

namespace ShellScript

namespace Escape

/-! ## The table -/

/-- What the escapes of one letter stand for, with the letter. -/
def letters : List (Char × Char) := ('\\', '\\') :: controls

/-- An escape that is a number. -/
structure Numeric where
  /-- What stands between the backslash and the digits. -/
  letter : Char
  radix : Nat
  /-- How many digits it has at least. -/
  fewest : Nat
  /-- How many digits it has at most. -/
  most : Nat
  /-- What the number stands for, if it does for anything. -/
  bytes? : Nat → Option (List UInt8)

/-- The byte of a number, which counts modulo 256. -/
def byte? (n : Nat) : Option (List UInt8) := some [UInt8.ofNat (n % 256)]

/-- The bytes of the character with a code point. Surrogates and what is above U+10FFFF are no
characters. -/
def character? (n : Nat) : Option (List UInt8) :=
  if 0xD800 ≤ n ∧ n ≤ 0xDFFF ∨ 0x10FFFF < n then none
  else some (String.utf8EncodeChar (Char.ofNat n))

/-- The escapes that are numbers. -/
def numerics : List Numeric :=
  [{ letter := '0', radix := 8, fewest := 0, most := 3, bytes? := byte? },
    { letter := 'x', radix := 16, fewest := 1, most := 2, bytes? := byte? },
    { letter := 'u', radix := 16, fewest := 1, most := 4, bytes? := character? },
    { letter := 'U', radix := 16, fewest := 1, most := 8, bytes? := character? }]

/-- What the number stands for that the bytes behind the letter begin with, and how many digits it has:
as many as there are, up to the most. -/
def Numeric.read? (e : Numeric) (rest : List UInt8) : Option (List UInt8 × Nat) :=
  let ds := digits e.radix (rest.take e.most)
  if ds.length < e.fewest then none
  else (e.bytes? (Nat.ofDigits e.radix ds.reverse)).map (·, ds.length)

/-- What the escape stands for that the bytes behind a backslash begin with, if they begin with one, and how
many bytes behind its letter belong to it. -/
def escape? : List UInt8 → Option (List UInt8 × Nat)
  | [] => none
  | code :: rest =>
    match letters.find? (Utf8.ascii ·.2 = code) with
    | some (c, _) => some ([Utf8.ascii c], 0)
    | none => (numerics.find? (Utf8.ascii ·.letter = code)).bind (·.read? rest)

/-- A text taken from left to right: `\c` ends it, an escape becomes what it stands for, and every other
byte is copied. The first `taken` bytes belong to an escape before them. -/
def byTable : (taken : Nat) → List UInt8 → List UInt8 × Bool
  | _, [] => ([], false)
  | taken + 1, _ :: rest => byTable taken rest
  | 0, b :: rest =>
    if b = backslash then
      if rest.head? = some (Utf8.ascii 'c') then ([], true)
      else match escape? rest with
        | some (out, used) => (byTable (used + 1) rest).map (out ++ ·) id
        | none => (byTable 0 rest).map (b :: ·) id
    else (byTable 0 rest).map (b :: ·) id

/-! ## What escapes mean -/

section

variable {code : UInt8} {rest out : List UInt8} {used : Nat}

/-- An escape of one letter is looked up by its letter. -/
theorem letter?_eq (code : UInt8) :
    letter? code = (letters.find? (Utf8.ascii ·.2 = code)).map (Utf8.ascii ·.1) := by
  revert code
  exact forall_byte (by decide +kernel)

/-- Numbers are octal or hexadecimal. -/
theorem Numeric.radix_mem {e : Numeric} (he : e ∈ numerics) : e.radix ∈ [8, 16] := by
  have htable : ∀ e ∈ numerics, e.radix ∈ [8, 16] := by simp [numerics]
  exact htable e he

/-- The number of an escape is that of its digits, and nothing is lost of it. -/
theorem Numeric.readDigits_eq {e : Numeric} (he : e ∈ numerics) (rest : List UInt8) :
    let ds := digits e.radix (rest.take e.most)
    readDigits (UInt32.ofNat e.radix) e.most 0 rest =
        (UInt32.ofNat (Nat.ofDigits e.radix ds.reverse), ds.length) ∧
      Nat.ofDigits e.radix ds.reverse < UInt32.size := by
  intro ds
  have htable : ∀ e ∈ numerics, 1 < e.radix ∧ e.radix ^ e.most ≤ UInt32.size := by
    simp [numerics, UInt32.size]
  obtain ⟨hone, hroom⟩ := htable e he
  constructor
  · simpa using Escape.readDigits_eq (radix_mem he) e.most 0 rest
  · have hlength : ds.length ≤ e.most :=
      (length_digits_le e.radix _).trans (List.length_take_le _ _)
    calc Nat.ofDigits e.radix ds.reverse
        < e.radix ^ ds.length := ofDigits_digits_lt hone _
      _ ≤ e.radix ^ e.most := Nat.pow_le_pow_right (by omega) hlength
      _ ≤ UInt32.size := hroom

/-- A byte is the lowest eight bits of its number. -/
theorem byte?_eq (n : Nat) : byte? n = some [(UInt32.ofNat n).toUInt8] := by
  have hbyte : UInt8.ofNat (n % 256) = (UInt32.ofNat n).toUInt8 := by
    rw [← UInt8.toNat_inj]
    simp
  rw [byte?, hbyte]

/-- A number that fits a word is a code point if it is one as a word. -/
theorem character?_eq {n : Nat} (hn : n < UInt32.size) : character? n = codePoint? (UInt32.ofNat n) := by
  have hvalue : (UInt32.ofNat n).toNat = n := UInt32.toNat_ofNat_of_lt' hn
  have hvalid : (UInt32.ofNat n).isValidChar ↔ ¬(0xD800 ≤ n ∧ n ≤ 0xDFFF ∨ 0x10FFFF < n) := by
    rw [UInt32.isValidChar, hvalue, Nat.isValidChar]
    omega
  unfold codePoint? character?
  simp only [hvalid, ite_not, hvalue]

/-- A hexadecimal escape is read as the table says. -/
theorem hexadecimal_eq {e : Numeric} (he : e ∈ numerics) (hradix : e.radix = 16) (hfewest : e.fewest = 1)
    (result? : UInt32 → Option (List UInt8))
    (hresult : ∀ n < UInt32.size, e.bytes? n = result? (UInt32.ofNat n)) (code : UInt8)
    (rest : List UInt8) : hexadecimal code e.most rest result? =
      (e.read? rest).elim (.bytes [backslash, code] 0) fun x => .bytes x.1 x.2 := by
  obtain ⟨hdigits, hlt⟩ := e.readDigits_eq he rest
  rw [hradix] at hdigits hlt
  rw [hexadecimal, show (16 : UInt32) = UInt32.ofNat 16 from rfl, hdigits, Numeric.read?, hfewest, hradix]
  generalize Nat.ofDigits 16 (digits 16 (rest.take e.most)).reverse = value at hlt ⊢
  generalize (digits 16 (rest.take e.most)).length = used
  cases used with
  | zero => rfl
  | succ used =>
    rw [if_neg (by omega), hresult value hlt]
    cases hout : result? (UInt32.ofNat value) <;> simp [hout]

/-- Behind the letter of a number, an escape means that number, or is no escape. -/
theorem meaning_numeric {e : Numeric} (he : e ∈ numerics) (rest : List UInt8) :
    meaning (Utf8.ascii e.letter) rest = (e.read? rest).elim
      (.bytes [backslash, Utf8.ascii e.letter] 0) fun x => .bytes x.1 x.2 := by
  have hmem := he
  simp only [numerics, List.mem_cons, List.not_mem_nil, or_false] at hmem
  rcases hmem with rfl | rfl | rfl | rfl
  · obtain ⟨hdigits, -⟩ := Numeric.readDigits_eq he rest
    have hmeaning : meaning 0x30 rest =
        .bytes [(readDigits 8 3 0 rest).1.toUInt8] (readDigits 8 3 0 rest).2 := rfl
    change readDigits 8 3 0 rest = _ at hdigits
    change meaning 0x30 rest = _
    rw [hmeaning, hdigits]
    simp [Numeric.read?, byte?_eq]
  · exact hexadecimal_eq he rfl rfl (fun value => some [value.toUInt8]) (fun n _ => byte?_eq n) 0x78 rest
  · exact hexadecimal_eq he rfl rfl codePoint? (fun n hn => character?_eq hn) 0x75 rest
  · exact hexadecimal_eq he rfl rfl codePoint? (fun n hn => character?_eq hn) 0x55 rest

/-- What stands behind a backslash means what the table says of it. -/
theorem meaning_eq (hstop : code ≠ Utf8.ascii 'c') (rest : List UInt8) : meaning code rest =
    (escape? (code :: rest)).elim (.bytes [backslash, code] 0) fun x => .bytes x.1 x.2 := by
  have hletter := letter?_eq code
  cases hfound : letters.find? (Utf8.ascii ·.2 = code) with
  | some x =>
    rw [hfound, Option.map_some] at hletter
    simp only [meaning, hletter, escape?, hfound, Option.elim_some]
  | none =>
    rw [hfound, Option.map_none] at hletter
    cases hnumeric : numerics.find? (Utf8.ascii ·.letter = code) with
    | some e =>
      have hcode : Utf8.ascii e.letter = code := by simpa using List.find?_some hnumeric
      have hmeaning := meaning_numeric (List.mem_of_find?_eq_some hnumeric) rest
      rw [hcode] at hmeaning
      simp only [hmeaning, escape?, hfound, hnumeric, Option.bind_some]
    | none =>
      have hnot : ∀ e ∈ numerics, code ≠ Utf8.ascii e.letter := by
        intro e he hcode
        simpa [hcode] using List.find?_eq_none.mp hnumeric e he
      have hcodes : code ≠ 0x63 ∧ code ≠ 0x30 ∧ code ≠ 0x78 ∧ code ≠ 0x75 ∧ code ≠ 0x55 := by
        simp only [numerics, List.forall_mem_cons] at hnot
        exact ⟨hstop, hnot.1, hnot.2.1, hnot.2.2.1, hnot.2.2.2.1⟩
      simp only [meaning, hletter, escape?, hfound, hnumeric, hcodes, if_false, Option.bind_none,
        Option.elim_none]

/-- A number that is read has enough digits, and the bytes that its value stands for. -/
theorem Numeric.read?_eq_some {e : Numeric} (h : e.read? rest = some (out, used)) :
    let ds := digits e.radix (rest.take e.most)
    used = ds.length ∧ e.fewest ≤ used ∧ e.bytes? (Nat.ofDigits e.radix ds.reverse) = some out := by
  intro ds
  rw [Numeric.read?] at h
  split at h
  · cases h
  · rename_i hfewest
    obtain ⟨bytes, hbytes, hx⟩ := Option.map_eq_some_iff.mp h
    cases hx
    exact ⟨rfl, Nat.not_lt.mp hfewest, hbytes⟩

/-- An escape is one of a letter or one of a number. -/
theorem escape?_eq_some (h : escape? (code :: rest) = some (out, used)) :
    (∃ l ∈ letters, Utf8.ascii l.2 = code ∧ out = [Utf8.ascii l.1] ∧ used = 0) ∨
      ∃ e ∈ numerics, Utf8.ascii e.letter = code ∧ e.read? rest = some (out, used) := by
  rw [escape?] at h
  split at h
  · rename_i c x hfound
    cases h
    exact .inl ⟨(c, x), List.mem_of_find?_eq_some hfound, by simpa using List.find?_some hfound,
      rfl, rfl⟩
  · obtain ⟨e, hfound, hread⟩ := Option.bind_eq_some_iff.mp h
    exact .inr ⟨e, List.mem_of_find?_eq_some hfound, by simpa using List.find?_some hfound, hread⟩

/-- What belongs to an escape is there. -/
theorem lt_length_of_escape? {bytes : List UInt8} (h : escape? bytes = some (out, used)) :
    used < bytes.length := by
  cases bytes with
  | nil => cases h
  | cons code rest =>
    rcases escape?_eq_some h with ⟨l, -, -, -, rfl⟩ | ⟨e, -, -, hread⟩
    · simp
    · obtain ⟨rfl, -, -⟩ := Numeric.read?_eq_some hread
      have hdigits := length_digits_le e.radix (rest.take e.most)
      rw [List.length_take] at hdigits
      rw [List.length_cons]
      omega

/-- Where no escape stands, no backslash does. -/
theorem ne_backslash_of_escape? (h : escape? (code :: rest) = none) : code ≠ backslash := by
  rintro rfl
  cases h

/-- A backslash is taken together with what the table says of the bytes behind it. -/
theorem decodeBytes_backslash (rest : List UInt8) : decodeBytes (backslash :: rest) =
    if rest.head? = some (Utf8.ascii 'c') then ([], true)
    else (escape? rest).elim ((decodeBytes rest).map (backslash :: ·) id) fun x =>
      (decodeBytes (rest.drop (x.2 + 1))).map (x.1 ++ ·) id := by
  cases rest with
  | nil => simp [decodeBytes_eq, escape?, Prod.map]
  | cons code rest =>
    by_cases hstop : code = Utf8.ascii 'c'
    · have hmeaning : meaning (Utf8.ascii 'c') rest = .stop := rfl
      simp [hstop, decodeBytes_eq, hmeaning, Prod.map]
    · have hmeaning := meaning_eq hstop rest
      rw [if_neg (by simpa using hstop)]
      cases hescape : escape? (code :: rest) with
      | none =>
        rw [hescape, Option.elim_none] at hmeaning
        rw [decodeBytes_of_meaning hmeaning, List.drop_zero, Option.elim_none,
          decodeBytes_cons (ne_backslash_of_escape? hescape), Prod.map_map]
        rfl
      | some x =>
        rw [hescape, Option.elim_some] at hmeaning
        rw [decodeBytes_of_meaning hmeaning, Option.elim_some, List.drop_succ_cons]

end

/-! ## Decoding -/

/-- Induction on a list that may go on behind any part of the rest. -/
theorem drop_induction {α : Type} {p : List α → Prop} (nil : p [])
    (cons : ∀ a rest, (∀ n, p (rest.drop n)) → p (a :: rest)) (as : List α) : p as := by
  suffices h : ∀ n, p (as.drop n) from h 0
  induction as with
  | nil => simpa using nil
  | cons a rest ih =>
    intro n
    cases n with
    | zero => exact cons a rest ih
    | succ n => exact ih n

/-- Bytes that were taken already are passed over. -/
theorem byTable_eq_drop (taken : Nat) (bytes : List UInt8) :
    byTable taken bytes = byTable 0 (bytes.drop taken) := by
  induction bytes generalizing taken with
  | nil => simp [byTable]
  | cons b rest ih =>
    cases taken with
    | zero => rfl
    | succ taken => rw [byTable, ih, List.drop_succ_cons]

/-- Decoding is taking the text from left to right by the table. The word that the number of an escape is
kept in overflows for none of them. -/
theorem decodeBytes_eq_byTable (input : List UInt8) :
    decodeBytes input = byTable 0 input ∧
      ∀ e ∈ numerics, ∀ bytes, readDigitsChecked? (UInt32.ofNat e.radix) e.most 0 bytes =
        some (readDigits (UInt32.ofNat e.radix) e.most 0 bytes) := by
  constructor
  · induction input using drop_induction with
    | nil => exact decodeBytes_nil
    | cons b rest ih =>
      have hrest : decodeBytes rest = byTable 0 rest := ih 0
      rw [byTable]
      by_cases hb : b = backslash
      · rw [if_pos hb, hb, decodeBytes_backslash]
        cases escape? rest with
        | none => simp only [Option.elim_none, hrest]
        | some x => simp only [Option.elim_some, ih (x.2 + 1), ← byTable_eq_drop]
      · rw [if_neg hb, decodeBytes_cons hb, hrest]
  · have htable : ∀ e ∈ numerics, (UInt32.ofNat e.radix).toNat ^ e.most ≤ UInt32.size := by
      simp [numerics, UInt32.size]
    intro e he bytes
    refine readDigitsChecked?_eq ?_ bytes
    simpa using htable e he

end Escape

end ShellScript
