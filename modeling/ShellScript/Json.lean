/-!
# JSON text

Values written as compact JSON: no blanks, and the fields of an object in the order given. Inside a
string only the quote, the backslash and the control characters are escaped.
-/

namespace ShellScript.Json

/-- A digit of a hexadecimal number. -/
def hexDigit (n : Nat) : Char :=
  "0123456789abcdef".toList.getD n '0'

/-- A character inside a string. -/
def charText (c : Char) : List Char :=
  match c with
  | '"' => ['\\', '"']
  | '\\' => ['\\', '\\']
  | '\x08' => ['\\', 'b']
  | '\x0c' => ['\\', 'f']
  | '\n' => ['\\', 'n']
  | '\r' => ['\\', 'r']
  | '\t' => ['\\', 't']
  | _ =>
    if c.toNat < 0x20 then
      ['\\', 'u', '0', '0', hexDigit (c.toNat / 16), hexDigit (c.toNat % 16)]
    else [c]

/-- A text as a string. -/
def string (text : String) : String :=
  String.ofList ('"' :: text.toList.flatMap charText ++ ['"'])

/-- Written values as an array. -/
def array (values : List String) : String :=
  "[" ++ ",".intercalate values ++ "]"

/-- Names with written values as an object. -/
def object (fields : List (String × String)) : String :=
  "\x7b" ++ ",".intercalate (fields.map fun (name, value) => string name ++ ":" ++ value) ++ "\x7d"

/-- A value that may be absent. -/
def optional {α : Type} (write : α → String) : Option α → String
  | some a => write a
  | none => "null"

end ShellScript.Json
