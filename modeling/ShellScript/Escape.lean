import ShellScript.Text.Utf8

/-!
# Backslash escapes

The escapes of `$'...'` quotes and of `echo -e`:

| escape | result |
|---|---|
| `\\` | a backslash |
| `\a` `\b` `\e` `\f` `\n` `\r` `\t` `\v` | a control character |
| `\c` | the end of all output |
| `\0ooo` | the byte with up to three octal digits after the zero, modulo 256 |
| `\xHH` | the byte with up to two hexadecimal digits |
| `\uHHHH` | the character with up to four hexadecimal digits |
| `\UHHHHHHHH` | the character with up to eight hexadecimal digits |

Everything else is copied: an unknown escape, one without digits, one whose code point is no character,
and a backslash at the end. Decoding never fails.
-/

namespace ShellScript.Escape

/-- The backslash. -/
def backslash : UInt8 := 0x5C

/-- The value of a digit in a radix of at most sixteen. -/
def digit? (radix : UInt32) (b : UInt8) : Option UInt32 :=
  let value? : Option UInt32 :=
    if 0x30 ≤ b && b ≤ 0x39 then some (b.toUInt32 - 0x30)
    else if 0x61 ≤ b && b ≤ 0x66 then some (b.toUInt32 - 0x57)
    else if 0x41 ≤ b && b ≤ 0x46 then some (b.toUInt32 - 0x37)
    else none
  value?.filter (· < radix)

/-- Goes on reading a number: the value with at most `limit` more digits, and how many there were. -/
def readDigits (radix : UInt32) : (limit : Nat) → (value : UInt32) → List UInt8 → UInt32 × Nat
  | 0, value, _ => (value, 0)
  | _ + 1, value, [] => (value, 0)
  | limit + 1, value, b :: rest =>
    match digit? radix b with
    | none => (value, 0)
    | some d =>
      let (result, used) := readDigits radix limit (value * radix + d) rest
      (result, used + 1)

/-- What stands after a backslash means. -/
inductive Meaning
  /-- These bytes, and so many more bytes of the input are used up. -/
  | bytes (out : List UInt8) (used : Nat)
  /-- The end of all output. -/
  | stop

/-- The letter escapes. -/
def letter? : UInt8 → Option UInt8
  | 0x5C => some 0x5C
  | 0x61 => some 0x07
  | 0x62 => some 0x08
  | 0x65 => some 0x1B
  | 0x66 => some 0x0C
  | 0x6E => some 0x0A
  | 0x72 => some 0x0D
  | 0x74 => some 0x09
  | 0x76 => some 0x0B
  | _ => none

/-- The bytes of the character with a code point, if there is such a character. -/
def codePoint? (code : UInt32) : Option (List UInt8) :=
  if code.isValidChar then some (String.utf8EncodeChar (Char.ofNat code.toNat)) else none

/-- A hexadecimal escape: `result?` says what its value stands for. Without digits, or without a
result, the backslash and the letter stand for themselves. -/
def hexadecimal (code : UInt8) (limit : Nat) (rest : List UInt8)
    (result? : UInt32 → Option (List UInt8)) : Meaning :=
  match readDigits 16 limit 0 rest with
  | (_, 0) => .bytes [backslash, code] 0
  | (value, used) =>
    match result? value with
    | some out => .bytes out used
    | none => .bytes [backslash, code] 0

/-- What a backslash followed by `code` and then `rest` means. -/
def meaning (code : UInt8) (rest : List UInt8) : Meaning :=
  match letter? code with
  | some b => .bytes [b] 0
  | none =>
    if code = 0x63 then .stop
    else if code = 0x30 then
      let (value, used) := readDigits 8 3 0 rest
      .bytes [value.toUInt8] used
    else if code = 0x78 then hexadecimal code 2 rest fun value => some [value.toUInt8]
    else if code = 0x75 then hexadecimal code 4 rest codePoint?
    else if code = 0x55 then hexadecimal code 8 rest codePoint?
    else .bytes [backslash, code] 0

/-- Decodes the escapes of a byte list. The flag tells whether a `\c` cut the rest off. -/
def decodeBytes (input : List UInt8) : List UInt8 × Bool :=
  let plain := input.takeWhile (· ≠ backslash)
  match _h : input.dropWhile (· ≠ backslash) with
  | [] => (plain, false)
  | [b] => (plain ++ [b], false)
  | _ :: code :: rest =>
    match meaning code rest with
    | .stop => (plain, true)
    | .bytes out used =>
      let (more, stopped) := decodeBytes (rest.drop used)
      (plain ++ out ++ more, stopped)
termination_by input.length
decreasing_by
  have hl := congrArg List.length (List.takeWhile_append_dropWhile (p := (· ≠ backslash)) (l := input))
  simp only [List.length_append, _h, List.length_cons, List.length_drop] at *
  omega

/-- Decodes the escapes of a text. Bytes that are not UTF-8 after decoding become U+FFFD. -/
def decode (input : String) : String × Bool :=
  let (bytes, stopped) := decodeBytes (Utf8.encode input)
  (Utf8.decodeLossy bytes, stopped)

end ShellScript.Escape
