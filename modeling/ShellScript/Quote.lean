/-!
# Quoting

`quote` writes any text so that a script reads it back as it is: between single quotes, where nothing
is special. A single quote in the text closes the quotes, stands between double quotes, and opens them
again.
-/

namespace ShellScript

/-- What a character of the text is written as inside single quotes. -/
def quoteChar (c : Char) : List Char :=
  if c = '\'' then ['\'', '"', '\'', '"', '\''] else [c]

/-- A text as a script writes it. -/
def quote (text : String) : String :=
  String.ofList ('\'' :: text.toList.flatMap quoteChar ++ ['\''])

end ShellScript
