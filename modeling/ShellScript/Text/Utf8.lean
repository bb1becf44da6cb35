/-!
# UTF-8

Texts are read from bytes that need not be well formed. This module fixes the encoding of a text
(`encode`), the well-formed sequence at the start of a byte list (`next?`), and the two ways to read
a whole list: `decode?`, which refuses an ill-formed one, and `decodeLossy`, which writes U+FFFD once
for each maximal part of an ill-formed sequence.

Which bytes may follow one another is `width` and `mayFollow`; they say the same as the table of
well-formed byte sequences of the Unicode standard: no overlong form, no surrogate, nothing above
U+10FFFF.
-/

namespace ShellScript.Utf8

/-- U+FFFD, which stands for bytes that are not UTF-8. -/
def replacement : Char := '\uFFFD'

/-- A byte that continues a sequence. -/
def isContinuation (b : UInt8) : Bool :=
  0x80 ≤ b && b ≤ 0xBF

/-- The length of the sequence that a lead byte announces; a byte that leads none counts as one. -/
def width (lead : UInt8) : Nat :=
  if 0xC2 ≤ lead && lead ≤ 0xDF then 2
  else if 0xE0 ≤ lead && lead ≤ 0xEF then 3
  else if 0xF0 ≤ lead && lead ≤ 0xF4 then 4
  else 1

/-- Whether `second` may stand after `lead`. After four lead bytes the range is narrower, which keeps
out overlong forms, surrogates and code points above U+10FFFF. -/
def mayFollow (lead second : UInt8) : Bool :=
  if lead = 0xE0 then 0xA0 ≤ second && second ≤ 0xBF
  else if lead = 0xED then 0x80 ≤ second && second ≤ 0x9F
  else if lead = 0xF0 then 0x90 ≤ second && second ≤ 0xBF
  else if lead = 0xF4 then 0x80 ≤ second && second ≤ 0x8F
  else isContinuation second

/-- The six bits that a continuation byte carries. -/
def tailBits (b : UInt8) : Nat :=
  b.toNat % 64

/-- The character whose well-formed sequence starts the list, and the length of that sequence. -/
def next? : List UInt8 → Option (Char × Nat)
  | [] => none
  | a :: rest =>
    if a < 0x80 then some (Char.ofNat a.toNat, 1)
    else match width a, rest with
      | 2, b :: _ =>
        if isContinuation b then some (Char.ofNat (a.toNat % 32 * 64 + tailBits b), 2) else none
      | 3, b :: c :: _ =>
        if mayFollow a b && isContinuation c then
          some (Char.ofNat ((a.toNat % 16 * 64 + tailBits b) * 64 + tailBits c), 3)
        else none
      | 4, b :: c :: d :: _ =>
        if mayFollow a b && isContinuation c && isContinuation d then
          some (Char.ofNat (((a.toNat % 8 * 64 + tailBits b) * 64 + tailBits c) * 64 + tailBits d), 4)
        else none
      | _, _ => none

/-- A sequence that is read takes at least one byte, and no more than there are. -/
theorem next?_bounds {bytes : List UInt8} {c : Char} {n : Nat} (h : next? bytes = some (c, n)) :
    0 < n ∧ n ≤ bytes.length := by
  unfold next? at h
  split at h
  · cases h
  · split at h
    · cases h; simp
    · split at h <;> (try split at h) <;> cases h <;> simp

/-- The next character of a text that may be ill formed, and the number of bytes it takes: a byte
that starts no well-formed sequence reads as U+FFFD and is taken alone. -/
def nextRune (lead : UInt8) (rest : List UInt8) : Char × Nat :=
  (next? (lead :: rest)).getD (replacement, 1)

/-- How many bytes after the lead belong to an ill-formed sequence: those that some well-formed
sequence could still hold at their place. -/
def brokenTail (lead : UInt8) (rest : List UInt8) : Nat :=
  match width lead, rest with
  | 3, b :: _ => if mayFollow lead b then 1 else 0
  | 4, [b] => if mayFollow lead b then 1 else 0
  | 4, b :: c :: _ =>
    if mayFollow lead b then if isContinuation c then 2 else 1 else 0
  | _, _ => 0

/-- The characters of a byte list, with one U+FFFD for each maximal part of an ill-formed sequence. -/
def lossyChars (bytes : List UInt8) : List Char :=
  match bytes with
  | [] => []
  | lead :: rest =>
    match _h : next? (lead :: rest) with
    | some (c, n) => c :: lossyChars ((lead :: rest).drop n)
    | none => replacement :: lossyChars (rest.drop (brokenTail lead rest))
termination_by bytes.length
decreasing_by
  · have := next?_bounds _h
    simp only [List.length_drop, List.length_cons] at *
    omega
  · simp only [List.length_drop, List.length_cons]
    omega

/-- The characters of a byte list, or `none` if any part of it is ill formed. -/
def strictChars? (bytes : List UInt8) : Option (List Char) :=
  match bytes with
  | [] => some []
  | lead :: rest =>
    match _h : next? (lead :: rest) with
    | some (c, n) => (strictChars? ((lead :: rest).drop n)).map (c :: ·)
    | none => none
termination_by bytes.length
decreasing_by
  have := next?_bounds _h
  simp only [List.length_drop, List.length_cons] at *
  omega

/-- The bytes of a list of characters. -/
def encodeChars (chars : List Char) : List UInt8 :=
  chars.flatMap String.utf8EncodeChar

/-- The bytes of a text. -/
def encode (text : String) : List UInt8 :=
  encodeChars text.toList

/-- The text of a byte list, with U+FFFD for what is ill formed. -/
def decodeLossy (bytes : List UInt8) : String :=
  String.ofList (lossyChars bytes)

/-- The text of a well-formed byte list. -/
def decode? (bytes : List UInt8) : Option String :=
  (strictChars? bytes).map String.ofList

end ShellScript.Utf8
