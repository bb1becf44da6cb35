import ShellScript.Proofs.Digits
import ShellScript.Proofs.Quoting

/-!
# Escapes spell texts

Each character of a text can be written in several ways: as it stands, by its letter, by the numbers of
its bytes, or by its code point (`Spells`). Whichever is chosen for each of them, decoding gives the text
back: an escape takes as many digits as it has and leaves a digit behind it alone. So does reading the
spelled text between `$'` and `'`.
-/

namespace ShellScript

namespace Escape

/-! ## Spellings -/

/-- Whether a character is a digit of a radix, with this value. -/
def IsDigit (radix d : Nat) (c : Char) : Prop :=
  d < radix ∧ (smallDigits[d]? = some c ∨ capitalDigits[d]? = some c)

instance (radix d : Nat) (c : Char) : Decidable (IsDigit radix d c) :=
  inferInstanceAs (Decidable (_ ∧ _))

/-- The digits of a number, the highest first. There may be zeros before it. -/
def IsNumeral (radix value : Nat) (w : List Char) : Prop :=
  ∃ ds, List.Forall₂ (IsDigit radix) ds w ∧ Nat.ofDigits radix ds.reverse = value

/-- The control characters that have an escape of one letter, with that letter. -/
def controls : List (Char × Char) :=
  [('\x07', 'a'), ('\x08', 'b'), ('\x1B', 'e'), ('\x0C', 'f'), ('\n', 'n'), ('\r', 'r'), ('\t', 't'),
    ('\x0B', 'v')]

/-- The ways to write a byte by its number. -/
inductive SpellsByte (b : UInt8) : List Char → Prop
  | hexadecimal {w : List Char} (numeral : IsNumeral 16 b.toNat w) (width : w.length = 2) :
    SpellsByte b ('\\' :: 'x' :: w)
  | octal {w : List Char} (numeral : IsNumeral 8 b.toNat w) (width : w.length = 3) :
    SpellsByte b ('\\' :: '0' :: w)

/-- The ways to write a character. -/
inductive Spells (c : Char) : List Char → Prop
  | raw (plain : c ≠ '\\') : Spells c [c]
  | doubled (same : c = '\\') : Spells c ['\\', '\\']
  | letter {x : Char} (control : (c, x) ∈ controls) : Spells c ['\\', x]
  | bytes {ws : List (List Char)} (each : List.Forall₂ SpellsByte (String.utf8EncodeChar c) ws) :
    Spells c ws.flatten
  | short {w : List Char} (numeral : IsNumeral 16 c.toNat w) (width : w.length = 4) :
    Spells c ('\\' :: 'u' :: w)
  | long {w : List Char} (numeral : IsNumeral 16 c.toNat w) (width : w.length = 8) :
    Spells c ('\\' :: 'U' :: w)

/-! ## Digits -/

section

variable {radix d : Nat} {c : Char} {w : List Char}

/-- A digit is one with small letters or one with capital letters. -/
theorem IsDigit.mem (h : IsDigit radix d c) : c ∈ smallDigits ++ capitalDigits :=
  List.mem_append.mpr (h.2.imp List.mem_of_getElem? List.mem_of_getElem?)

/-- Digits are ASCII characters. -/
theorem IsDigit.toNat_lt (h : IsDigit radix d c) : c.toNat < 128 := toNat_lt_of_digit h.mem

/-- The value of a digit is found from its byte. -/
theorem IsDigit.digitValue? (hradix : radix ≤ 16) (h : IsDigit radix d c) :
    Escape.digitValue? radix (Utf8.ascii c) = some d := by
  obtain ⟨hd, hc⟩ := h
  have htable : ∀ d < 16, (smallDigits[d]?.toList ++ capitalDigits[d]?.toList).all
      (fun c => Escape.digitValue? 16 (Utf8.ascii c) = some d) = true := by decide
  have hsixteen : Escape.digitValue? 16 (Utf8.ascii c) = some d := by
    refine of_decide_eq_true (List.all_eq_true.mp (htable d (by omega)) c (List.mem_append.mpr ?_))
    exact hc.imp Option.mem_toList.mpr Option.mem_toList.mpr
  -- the radix only refuses digits that are too high for it
  obtain ⟨hvalue, -⟩ := Option.filter_eq_some_iff.mp hsixteen
  exact Option.filter_eq_some_iff.mpr ⟨hvalue, by simpa using hd⟩

/-- The digits of a numeral take a byte each. -/
theorem length_encodeChars_numeral {value : Nat} (h : IsNumeral radix value w) :
    (Utf8.encodeChars w).length = w.length := by
  obtain ⟨ds, hds, -⟩ := h
  induction hds with
  | nil => rfl
  | cons hdigit _ ih =>
    rw [Utf8.encodeChars_cons, List.length_append, ih, Utf8.utf8EncodeChar_ascii hdigit.toNat_lt,
      List.length_singleton, List.length_cons, Nat.add_comm]

/-- The digits of a numeral are read back from its bytes. -/
theorem digits_encodeChars (hradix : radix ≤ 16) {ds : List Nat} (h : List.Forall₂ (IsDigit radix) ds w) :
    digits radix (Utf8.encodeChars w) = ds := by
  induction h with
  | nil => rfl
  | cons hdigit _ ih =>
    rw [Utf8.encodeChars_cons, Utf8.utf8EncodeChar_ascii hdigit.toNat_lt, List.singleton_append, digits_cons,
      hdigit.digitValue? hradix, Option.elim_some, ih]

/-- A numeral is read to the end when as many digits are asked for, whatever follows it. -/
theorem readDigits_numeral (hradix : radix ∈ [8, 16]) {value : Nat} (h : IsNumeral radix value w)
    (rest : List UInt8) : readDigits (UInt32.ofNat radix) w.length 0 (Utf8.encodeChars w ++ rest) =
      (UInt32.ofNat value, w.length) := by
  have hsixteen : radix ≤ 16 := by
    have hle : ∀ radix ∈ [8, 16], radix ≤ 16 := by decide
    exact hle radix hradix
  have hread := readDigits_eq hradix w.length 0 (Utf8.encodeChars w ++ rest)
  rw [List.take_left' (length_encodeChars_numeral h)] at hread
  obtain ⟨ds, hds, rfl⟩ := h
  rw [digits_encodeChars hsixteen hds] at hread
  simpa [hds.length_eq] using hread

end

/-! ## Decoding in steps -/

section

variable {rest out : List UInt8} {used : Nat}

/-- Decoding copies what stands before the first backslash and goes on behind what the backslash and
the byte after it mean. -/
theorem decodeBytes_eq (input : List UInt8) : decodeBytes input =
    (match input.dropWhile (· ≠ backslash) with
      | [] => ([], false)
      | [b] => ([b], false)
      | _ :: code :: rest =>
        match meaning code rest with
        | .stop => ([], true)
        | .bytes out used => (decodeBytes (rest.drop used)).map (out ++ ·) id).map
      (input.takeWhile (· ≠ backslash) ++ ·) id := by
  rw [decodeBytes]
  split <;> rename_i h <;> rw [h]
  · simp
  · simp
  · rename_i code rest
    cases hmeaning : meaning code rest <;> simp [hmeaning, Prod.map]

/-- Nothing is decoded of no bytes. -/
theorem decodeBytes_nil : decodeBytes [] = ([], false) := by simp [decodeBytes_eq]

/-- A byte other than a backslash is copied. -/
theorem decodeBytes_cons {b : UInt8} (hb : b ≠ backslash) (rest : List UInt8) :
    decodeBytes (b :: rest) = (decodeBytes rest).map (b :: ·) id := by
  rw [decodeBytes_eq, decodeBytes_eq rest, List.takeWhile_cons_of_pos (by simpa using hb),
    List.dropWhile_cons_of_pos (by simpa using hb), Prod.map_map]
  rfl

/-- An escape is decoded, and then what follows the bytes that it takes. -/
theorem decodeBytes_of_meaning {code : UInt8} (h : meaning code rest = .bytes out used) :
    decodeBytes (backslash :: code :: rest) = (decodeBytes (rest.drop used)).map (out ++ ·) id := by
  rw [decodeBytes_eq, List.takeWhile_cons_of_neg (by simp), List.dropWhile_cons_of_neg (by simp)]
  simp [h, Prod.map]

end

/-! ## Decoding what is spelled -/

/-- Whether bytes decode to others, and what follows them for itself. -/
def DecodesTo (bytes out : List UInt8) : Prop :=
  ∀ rest, decodeBytes (bytes ++ rest) = (decodeBytes rest).map (out ++ ·) id

namespace DecodesTo

variable {bytes bytes' out out' : List UInt8}

/-- Nothing decodes to nothing. -/
theorem nil : DecodesTo [] [] := fun rest => by simp [Prod.map]

/-- What decodes one after the other decodes together. -/
theorem append (h : DecodesTo bytes out) (h' : DecodesTo bytes' out') :
    DecodesTo (bytes ++ bytes') (out ++ out') := by
  intro rest
  rw [List.append_assoc, h, h', Prod.map_map]
  simp [Prod.map]

/-- Bytes among which there is no backslash decode to themselves. -/
theorem of_not_mem (h : backslash ∉ bytes) : DecodesTo bytes bytes := by
  induction bytes with
  | nil => exact nil
  | cons b bytes ih =>
    obtain ⟨hb, hbytes⟩ : backslash ≠ b ∧ backslash ∉ bytes := by simpa using h
    intro rest
    rw [List.cons_append, decodeBytes_cons hb.symm, ih hbytes, Prod.map_map]
    rfl

/-- Parts that decode each for itself decode together. -/
theorem flatten {α : Type} {R : α → List Char → Prop} (encode : α → List UInt8)
    (hR : ∀ {a w}, R a w → DecodesTo (Utf8.encodeChars w) (encode a)) {as : List α}
    {ws : List (List Char)} (h : List.Forall₂ R as ws) :
    DecodesTo (Utf8.encodeChars ws.flatten) (as.flatMap encode) := by
  induction h with
  | nil => exact nil
  | cons hpart _ ih =>
    rw [List.flatten_cons, Utf8.encodeChars_append, List.flatMap_cons]
    exact (hR hpart).append ih

end DecodesTo

section

variable {code : Char} {w : List Char}

/-- A backslash, a character and the text behind it decode to what they mean, if that is said by the text
alone. -/
theorem decodesTo_of_meaning {out : List UInt8} (hcode : code.toNat < 128)
    (h : ∀ rest, meaning (Utf8.ascii code) (Utf8.encodeChars w ++ rest) =
      .bytes out (Utf8.encodeChars w).length) :
    DecodesTo (Utf8.encodeChars ('\\' :: code :: w)) out := by
  intro rest
  have hbytes : Utf8.encodeChars ('\\' :: code :: w) ++ rest =
      backslash :: Utf8.ascii code :: (Utf8.encodeChars w ++ rest) := by
    rw [Utf8.encodeChars_cons, Utf8.encodeChars_cons, Utf8.utf8EncodeChar_ascii hcode]
    rfl
  rw [hbytes, decodeBytes_of_meaning (h rest), List.drop_left]

/-- A hexadecimal escape whose digits are all there stands for its value. -/
theorem hexadecimal_numeral {value : Nat} (h : IsNumeral 16 value w) (hw : 0 < w.length)
    {result? : UInt32 → Option (List UInt8)} {out : List UInt8}
    (hresult : result? (UInt32.ofNat value) = some out) (letter : UInt8) (rest : List UInt8) :
    hexadecimal letter w.length (Utf8.encodeChars w ++ rest) result? =
      .bytes out (Utf8.encodeChars w).length := by
  have hdigits : readDigits 16 w.length 0 (Utf8.encodeChars w ++ rest) = _ :=
    readDigits_numeral (by simp) h rest
  obtain ⟨n, hn⟩ := Nat.exists_eq_add_one.mpr hw
  rw [hexadecimal, hdigits]
  simp [hn, hresult, length_encodeChars_numeral h]

/-- A code point stands for its character. -/
theorem codePoint?_toNat (c : Char) :
    codePoint? (UInt32.ofNat c.toNat) = some (String.utf8EncodeChar c) := by
  have hval : UInt32.ofNat c.toNat = c.val := UInt32.ofNat_toNat
  rw [codePoint?, hval, if_pos c.valid, Char.toNat_val, Char.ofNat_toNat]

end

/-- A byte that is spelled decodes to the byte. -/
theorem SpellsByte.decodesTo {b : UInt8} {w : List Char} (h : SpellsByte b w) :
    DecodesTo (Utf8.encodeChars w) [b] := by
  cases h with
  | @hexadecimal w numeral width =>
    refine decodesTo_of_meaning (by decide) fun rest => ?_
    have h : Escape.hexadecimal 0x78 w.length (Utf8.encodeChars w ++ rest)
        (fun value => some [value.toUInt8]) = .bytes [b] (Utf8.encodeChars w).length :=
      hexadecimal_numeral numeral (by omega) (by simp) 0x78 rest
    rw [width] at h
    exact h
  | @octal w numeral width =>
    refine decodesTo_of_meaning (by decide) fun rest => ?_
    have hdigits : readDigits 8 w.length 0 (Utf8.encodeChars w ++ rest) = _ :=
      readDigits_numeral (by simp) numeral rest
    have hmeaning (bytes : List UInt8) : meaning 0x30 bytes =
        .bytes [(readDigits 8 3 0 bytes).1.toUInt8] (readDigits 8 3 0 bytes).2 := rfl
    rw [width] at hdigits
    rw [show Utf8.ascii '0' = 0x30 from rfl, hmeaning, hdigits, length_encodeChars_numeral numeral,
      width]
    simp

/-- Every way to write a character is decoded to its bytes. -/
theorem Spells.decodesTo {c : Char} {w : List Char} (h : Spells c w) :
    DecodesTo (Utf8.encodeChars w) (String.utf8EncodeChar c) := by
  cases h with
  | raw plain =>
    rw [Utf8.encodeChars_cons, Utf8.encodeChars_nil, List.append_nil]
    exact .of_not_mem fun hmem => plain (Utf8.eq_of_ascii_mem (d := '\\') (by decide) hmem)
  | doubled same =>
    subst same
    exact decodesTo_of_meaning (by decide) fun rest => rfl
  | @letter x control =>
    -- the two tables of control characters are compared entry by entry
    have htable : ∀ e ∈ controls, e.1.toNat < 128 ∧ e.2.toNat < 128 ∧
        letter? (Utf8.ascii e.2) = some (Utf8.ascii e.1) := by decide
    obtain ⟨hc, hx, hletter⟩ := htable _ control
    refine decodesTo_of_meaning hx fun rest => ?_
    rw [meaning, hletter, Utf8.utf8EncodeChar_ascii hc]
    rfl
  | bytes each =>
    have h := DecodesTo.flatten (fun b => [b]) SpellsByte.decodesTo each
    rwa [List.flatMap_singleton'] at h
  | @short w numeral width =>
    refine decodesTo_of_meaning (by decide) fun rest => ?_
    have h := hexadecimal_numeral numeral (by omega) (codePoint?_toNat c) 0x75 rest
    rw [width] at h
    exact h
  | @long w numeral width =>
    refine decodesTo_of_meaning (by decide) fun rest => ?_
    have h := hexadecimal_numeral numeral (by omega) (codePoint?_toNat c) 0x55 rest
    rw [width] at h
    exact h

/-! ## Single quotes in spellings -/

section

variable {w : List Char}

/-- There is no quote in a numeral. -/
theorem IsNumeral.apostrophe_not_mem {radix value : Nat} (h : IsNumeral radix value w) :
    '\'' ∉ w := by
  obtain ⟨ds, hds, -⟩ := h
  induction hds with
  | nil => exact List.not_mem_nil
  | cons hdigit _ ih =>
    rintro (_ | ⟨_, hmem⟩)
    · exact absurd hdigit.mem (by decide)
    · exact ih hmem

/-- What follows for one part from what it spells holds of all parts. -/
theorem forall_mem_of_forall₂ {α : Type} {R : α → List Char → Prop} {p : List Char → Prop}
    {as : List α} {ws : List (List Char)} (h : List.Forall₂ R as ws) (hp : ∀ a w, R a w → p w) :
    ∀ w ∈ ws, p w := by
  have hflip : List.Forall₂ (fun w a => p w ∧ R a w) ws as :=
    List.Forall₂.flip (h.imp fun a w hR => ⟨hp a w hR, hR⟩)
  exact ((List.forall₂_and_left ws as).mp hflip).1

/-- There is no quote in the spelling of a byte. -/
theorem SpellsByte.apostrophe_not_mem {b : UInt8} (h : SpellsByte b w) : '\'' ∉ w := by
  cases h with
  | hexadecimal numeral => simpa using numeral.apostrophe_not_mem
  | octal numeral => simpa using numeral.apostrophe_not_mem

/-- Only a single quote that is written as it stands is one in its spelling. -/
theorem Spells.eq_of_apostrophe_mem {c : Char} (h : Spells c w) (hmem : '\'' ∈ w) : w = ['\''] := by
  cases h with
  | raw => rw [List.mem_singleton.mp hmem]
  | doubled => simp at hmem
  | @letter x control =>
    have htable : ∀ e ∈ controls, e.2 ≠ '\'' := by decide
    have hx : '\'' ≠ x := (htable _ control).symm
    simp [hx] at hmem
  | @bytes ws each =>
    obtain ⟨w, hw, hmem⟩ := List.mem_flatten.mp hmem
    have hparts : ∀ w ∈ ws, '\'' ∉ w :=
      forall_mem_of_forall₂ each fun _ _ => SpellsByte.apostrophe_not_mem
    exact absurd hmem (hparts w hw)
  | short numeral => exact absurd hmem (by simpa using numeral.apostrophe_not_mem)
  | long numeral => exact absurd hmem (by simpa using numeral.apostrophe_not_mem)

end

end Escape

/-! ## Reading what is spelled -/

/-- Text between `$'` and `'` is one literal. -/
theorem Lexer.readOn_ansiC {escape : EscapeSet} (commandOpen : Bool) (es : List Element)
    {l : Lexer Cursor} {bytes rest : List UInt8} (hdollar : escape.contains '$' = false)
    (hbytes : 0x27 ∉ bytes)
    (h : l.input.rest = Utf8.encodeChars ['$', '\''] ++ (bytes ++ 0x27 :: rest)) :
    ∃ l', readOn escape commandOpen es l = readOn escape commandOpen
        (es ++ [.literal ⟨(Escape.decode (Utf8.decodeLossy bytes)).1, l.location⟩]) l' ∧
      l'.input.rest = rest := by
  obtain ⟨l₁, hn₁, htakes₁, -⟩ := nextRune_takes (c := '$') h
  have h₁ := htakes₁.rest_eq h
  obtain ⟨l₂, hn₂, htakes₂, -⟩ := nextRune_takes (c := '\'') h₁
  have h₂ := htakes₂.rest_eq h₁
  obtain ⟨l₃, hraw, htakes₃⟩ := readRawQuote_bytes .ansiC l.position hbytes h₂
  have hfilename : l₂.filename = l.filename := (htakes₁.trans htakes₂).filename
  refine ⟨l₃, readOn_of_readDollar hdollar hn₁ ?_, htakes₃.rest_eq (by simpa using h₂)⟩
  unfold readDollar readAnsiCQuoted
  simp [hn₂, hraw, location, place, hfilename]

namespace Escape

/-- The spellings of the characters of a text decode to it. Between `$'` and `'` they are one token, a
literal with this text, unless one of them is the single quote itself. -/
theorem decodeBytes_spelled {s : String} {parts : List (List Char)}
    (h : List.Forall₂ Spells s.toList parts) :
    decodeBytes (Utf8.encodeChars parts.flatten) = (Utf8.encode s, false) ∧
      ((∀ part ∈ parts, part ≠ ['\'']) → ∀ (filename : String) (escape : EscapeSet),
        escape.contains '$' = false →
        IsOneToken (Utf8.encode "$'" ++ (Utf8.encodeChars parts.flatten ++ [0x27])) filename escape
          ⟨[.literal ⟨s, ⟨filename, .start⟩⟩]⟩) := by
  have hdecode : decodeBytes (Utf8.encodeChars parts.flatten) = (Utf8.encode s, false) := by
    have hall := DecodesTo.flatten String.utf8EncodeChar Spells.decodesTo h []
    rwa [List.append_nil, decodeBytes_nil, Prod.map_apply, List.append_nil] at hall
  refine ⟨hdecode, fun hquote filename escape hdollar => ?_⟩
  refine Lexer.isOneToken_of_readOn (by simp) fun commandOpen => ?_
  -- only the raw spelling of the single quote has that byte, and it is excluded
  have hbytes : 0x27 ∉ Utf8.encodeChars parts.flatten := by
    intro hmem
    obtain ⟨part, hpart, hmem⟩ :=
      List.mem_flatten.mp (Utf8.mem_of_ascii_mem (d := '\'') (by decide) hmem)
    have hraw : ∀ part ∈ parts, '\'' ∈ part → part = ['\''] :=
      forall_mem_of_forall₂ h fun _ _ => Spells.eq_of_apostrophe_mem
    exact hquote part hpart (hraw part hpart hmem)
  have htext : (decode (Utf8.decodeLossy (Utf8.encodeChars parts.flatten))).1 = s := by
    rw [Utf8.decodeLossy, Utf8.lossyChars_encodeChars, decode, Utf8.encode, String.toList_ofList,
      hdecode]
    exact Utf8.decodeLossy_encode s
  obtain ⟨l, hread, hrest⟩ := Lexer.readOn_ansiC commandOpen [] hdollar hbytes
    (l := (Parser.ofCursor (Utf8.encodeChars ['$', '\''] ++ (Utf8.encodeChars parts.flatten ++ [0x27]))
      filename escape).lexer) rfl
  rw [htext] at hread
  exact ⟨l, hread, hrest⟩

/-- The bytes of `é` in both radices, a single quote by its code point, and a digit behind it. -/
theorem decodeBytes_spelled_digit :
    let parts :=
      [['\\', 'x', 'C', '3', '\\', '0', '2', '5', '1'], ['\\', 'u', '0', '0', '2', '7'], ['7']]
    List.Forall₂ Spells "é'7".toList parts ∧ (∀ part ∈ parts, part ≠ ['\'']) ∧
      EscapeSet.default.contains '$' = false ∧
      decodeBytes (Utf8.encode "\\xC3\\0251\\u00277") = (Utf8.encode "é'7", false) ∧
      IsOneToken (Utf8.encode "$'\\xC3\\0251\\u00277'") "s" .default
        ⟨[.literal ⟨"é'7", ⟨"s", .start⟩⟩]⟩ := by
  intro parts
  have hfirst : SpellsByte 0xC3 ['\\', 'x', 'C', '3'] :=
    .hexadecimal ⟨[12, 3], .cons (by decide) (.cons (by decide) .nil), rfl⟩ rfl
  have hsecond : SpellsByte 0xA9 ['\\', '0', '2', '5', '1'] :=
    .octal ⟨[2, 5, 1], .cons (by decide) (.cons (by decide) (.cons (by decide) .nil)), rfl⟩ rfl
  have heach : List.Forall₂ SpellsByte (String.utf8EncodeChar 'é')
      [['\\', 'x', 'C', '3'], ['\\', '0', '2', '5', '1']] := .cons hfirst (.cons hsecond .nil)
  have hquote : Spells '\'' ['\\', 'u', '0', '0', '2', '7'] :=
    .short ⟨[0, 0, 2, 7], .cons (by decide) (.cons (by decide) (.cons (by decide)
      (.cons (by decide) .nil))), rfl⟩ rfl
  have hspells : List.Forall₂ Spells "é'7".toList parts :=
    .cons (.bytes heach) (.cons hquote (.cons (.raw (by decide)) .nil))
  have hraw : ∀ part ∈ parts, part ≠ ['\''] := by decide
  have hdollar : EscapeSet.default.contains '$' = false := by decide
  obtain ⟨hdecode, htoken⟩ := decodeBytes_spelled hspells
  exact ⟨hspells, hraw, hdollar, hdecode, htoken hraw "s" .default hdollar⟩

end Escape

end ShellScript
