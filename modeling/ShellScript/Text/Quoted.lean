import ShellScript.Text.Printable

/-!
# Quoted text

How messages show a text that may hold anything: between double quotes, with an escape for each
character that would break the quotes, leave no mark, or join the character before it.
-/

namespace ShellScript.Text

/-- A character inside double quotes. -/
def quotedChar (c : Char) : String :=
  match c with
  | '\x00' => "\\0"
  | '\t' => "\\t"
  | '\r' => "\\r"
  | '\n' => "\\n"
  | '"' => "\\\""
  | '\\' => "\\\\"
  | _ =>
    if isPrintable c && !isExtending c then c.toString
    else "\\u\x7b" ++ String.ofList (Nat.toDigits 16 c.toNat) ++ "\x7d"

/-- A text between double quotes. -/
def quoted (text : String) : String :=
  "\"" ++ String.join (text.toList.map quotedChar) ++ "\""

end ShellScript.Text
