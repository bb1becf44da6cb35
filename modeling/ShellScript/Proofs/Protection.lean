import ShellScript.Proofs.IllFormed
import ShellScript.Proofs.Quoting

/-!
# Backslashes protect any text

A text can be written without single quotes so that it is read as it is: between double quotes, with a
backslash before each character that means something there (`doubleQuoted`), and without quotes, with a
backslash before every character (`backslashed`). The first is for any text. The second is for texts that are
not empty and have no line ends, since nothing stands for those behind a backslash
(`protected_is_one_token`).
-/

namespace ShellScript

/-! ## Writing -/

/-- The characters that mean something between double quotes. -/
def doubleQuoteSpecials : List Char := ['"', '$', '`', '\\']

/-- What double quotes make of a backslash and the character behind it. -/
def afterBackslash (c : Char) : List Char :=
  if c ∈ doubleQuoteSpecials then [c] else if c = '\n' then [] else ['\\', c]

/-- How a character is written between double quotes to be read as it is. -/
def protectChar (c : Char) : List Char := if c ∈ doubleQuoteSpecials then ['\\', c] else [c]

/-- A text between double quotes, protected from what they do. -/
def doubleQuoted (text : String) : String :=
  String.ofList ('"' :: text.toList.flatMap protectChar ++ ['"'])

/-- A text with a backslash before every character. -/
def backslashed (text : String) : String := String.ofList (text.toList.flatMap fun c => ['\\', c])

namespace Lexer

variable {l l₁ : Lexer Cursor} {rest : List UInt8} {c : Char}

/-- Only a carriage return is passed over. -/
theorem nextPastReturn_of_ne (hn : l.nextRune = (.ok (some c), l₁)) (hc : c ≠ '\r') :
    l.nextPastReturn = (.ok (some c), l₁) := by
  unfold nextPastReturn
  split
  · rename_i hreturn
    rw [hn] at hreturn
    cases hreturn
    exact absurd rfl hc
  · exact hn

/-- A backslash and the character behind it are read. -/
theorem nextPastReturn_takes (hc : c ≠ '\r') (h : l.input.rest = Utf8.encodeChars ['\\', c] ++ rest) :
    ∃ l₁ l₂, l.nextRune = (.ok (some '\\'), l₁) ∧ l₁.nextPastReturn = (.ok (some c), l₂) ∧
      l₁.filename = l.filename ∧ l₂.filename = l.filename ∧ l₂.input.rest = rest := by
  have h' : l.input.rest = String.utf8EncodeChar '\\' ++ (String.utf8EncodeChar c ++ rest) := by
    rw [h]
    simp
  obtain ⟨l₁, hn₁, htakes₁, -⟩ := nextRune_takes h'
  obtain ⟨l₂, hn₂, htakes₂, -⟩ := nextRune_takes (htakes₁.rest_eq h')
  exact ⟨l₁, l₂, hn₁, nextPastReturn_of_ne hn₂ hc, htakes₁.filename, (htakes₁.trans htakes₂).filename,
    htakes₂.rest_eq (htakes₁.rest_eq h')⟩

/-! ## Between double quotes -/

/-- What a backslash adds to the text that was begun. -/
theorem protect_eq (es : List Element) (before : String) (opening : Position) (c : Char) (p : Position) :
    protect ⟨es, ⟨before, some opening⟩⟩ c p =
      ⟨es, ⟨before ++ String.ofList (afterBackslash c), some opening⟩⟩ := by
  unfold protect afterBackslash
  by_cases hspecial : c ∈ doubleQuoteSpecials
  · rw [if_pos hspecial, if_pos]
    · simp [Gathering.push, Draft.push]
    · simp only [doubleQuoteSpecials, List.mem_cons, List.not_mem_nil, or_false] at hspecial
      rcases hspecial with rfl | rfl | rfl | rfl <;> rfl
  · rw [if_neg hspecial, if_neg]
    · split <;> simp [Gathering.push, Draft.push, ← String.toList_inj]
    · simp only [doubleQuoteSpecials, List.mem_cons, List.not_mem_nil, or_false, not_or] at hspecial
      simp [hspecial]

/-- Whether a source between double quotes adds a text to the literal that was begun, and reads no further. -/
def Conveys (source text : List Char) : Prop :=
  ∀ (opening : Position) (before : String) {l : Lexer Cursor} {rest : List UInt8},
    l.input.rest = Utf8.encodeChars source ++ rest → ∃ l',
      iterate (doubleQuoteStep opening) size_doubleQuoteStep_lt ⟨[], ⟨before, some opening⟩⟩ l =
        iterate (doubleQuoteStep opening) size_doubleQuoteStep_lt
          ⟨[], ⟨before ++ String.ofList text, some opening⟩⟩ l' ∧
      l'.input.rest = rest ∧ l'.filename = l.filename

namespace Conveys

variable {source source' text text' : List Char}

/-- Nothing conveys nothing. -/
theorem nil : Conveys [] [] := by
  intro opening before l rest h
  exact ⟨l, by simp, h, rfl⟩

/-- What is conveyed one after the other is conveyed together. -/
theorem append (hfirst : Conveys source text) (hsecond : Conveys source' text') :
    Conveys (source ++ source') (text ++ text') := by
  intro opening before l rest h
  rw [Utf8.encodeChars_append, List.append_assoc] at h
  obtain ⟨l₁, hread₁, hrest₁, hfilename₁⟩ := hfirst opening before h
  obtain ⟨l₂, hread₂, hrest₂, hfilename₂⟩ := hsecond opening _ hrest₁
  refine ⟨l₂, ?_, hrest₂, hfilename₂.trans hfilename₁⟩
  rw [hread₁, hread₂, String.append_assoc, ← String.ofList_append]

/-- Parts that convey each a part of a text convey the text together. -/
theorem flatMap {encode : Char → List Char} (h : ∀ c, Conveys (encode c) [c]) (cs : List Char) :
    Conveys (cs.flatMap encode) cs := by
  induction cs with
  | nil => exact nil
  | cons c cs ih => exact (h c).append ih

/-- Most characters stand for themselves. -/
theorem plain (hc : c ∉ doubleQuoteSpecials) : Conveys [c] [c] := by
  intro opening before l rest h
  rw [Utf8.encodeChars_cons, Utf8.encodeChars_nil, List.append_nil] at h
  obtain ⟨l', hn, htakes, -⟩ := nextRune_takes h
  refine ⟨l', ?_, htakes.rest_eq h, htakes.filename⟩
  rw [iterate_eq, adds_doubleQuoteStep opening hc hn]
  simp [Gathering.push, Draft.push]

/-- A backslash is taken together with the character that is read behind it. -/
theorem of_nextPastReturn (hpast : ∀ {l : Lexer Cursor} {rest}, l.input.rest = Utf8.encodeChars source ++ rest →
    ∃ l₁ l₂, l.nextRune = (.ok (some '\\'), l₁) ∧ l₁.nextPastReturn = (.ok (some c), l₂) ∧
      l₁.filename = l.filename ∧ l₂.filename = l.filename ∧ l₂.input.rest = rest) :
    Conveys source (afterBackslash c) := by
  intro opening before l rest h
  obtain ⟨l₁, l₂, hn, hpast, -, hfilename, hrest⟩ := hpast h
  refine ⟨l₂, ?_, hrest, hfilename⟩
  rw [iterate_eq]
  unfold doubleQuoteStep
  simp [hn, hpast, protect_eq]

/-- A backslash conveys what it makes of the character behind it, unless that is a carriage return. -/
theorem backslash (hc : c ≠ '\r') : Conveys ['\\', c] (afterBackslash c) :=
  of_nextPastReturn (nextPastReturn_takes hc)

/-- A backslash protects the characters that mean something. -/
theorem special (hc : c ∈ doubleQuoteSpecials) : Conveys ['\\', c] [c] := by
  have hreturn : c ≠ '\r' := by
    rintro rfl
    exact absurd hc (by decide)
  have hafter : afterBackslash c = [c] := if_pos hc
  exact hafter ▸ backslash hreturn

/-- A protected character conveys itself. -/
theorem of_protectChar (c : Char) : Conveys (protectChar c) [c] := by
  unfold protectChar
  split
  · rename_i hc
    exact special hc
  · rename_i hc
    exact plain hc

end Conveys

/-- Between double quotes, a source that conveys a text is one literal, which is the text. -/
theorem readOn_conveyed {escape : EscapeSet} (commandOpen : Bool) (es : List Element)
    (hquote : escape.contains '"' = false) {source text : List Char} (hconveys : Conveys source text)
    (h : l.input.rest = Utf8.encodeChars ('"' :: source ++ ['"']) ++ rest) :
    ∃ l', readOn escape commandOpen es l = readOn escape commandOpen
        (es ++ [.literal ⟨String.ofList text, l.location⟩]) l' ∧ l'.input.rest = rest := by
  have hquotes : l.input.rest = String.utf8EncodeChar '"' ++ (Utf8.encodeChars source ++ 0x22 :: rest) := by
    rw [h]
    simp [String.utf8EncodeChar]
  obtain ⟨l₁, hn, htakes, -⟩ := nextRune_takes hquotes
  obtain ⟨l₂, hrun, hrest₂, hfilename⟩ := hconveys l.position "" (htakes.rest_eq hquotes)
  rw [String.empty_append] at hrun
  obtain ⟨l₃, hread, hrest₃⟩ := readDoubleQuoted_of_gathered l.position hrun hfilename hrest₂
  refine ⟨l₃, (readOn_of_readDoubleQuoted hquote hn hread).trans ?_, hrest₃⟩
  simp only [location, place, htakes.filename]

/-! ## Without quotes -/

variable {escape : EscapeSet}

/-- A backslash that was not chosen as a separator takes the next character. -/
theorem role_backslash (h : escape.contains '\\' = false) : role escape '\\' = .backslash :=
  (role_eq_of_not_contains h).trans (by decide)

/-- Outside quotes, a backslash starts a run of text with the character behind it. -/
theorem wordStep_backslash (hbackslash : escape.contains '\\' = false) (hnewline : c ≠ '\n')
    (hreturn : c ≠ '\r') (g : Gathering) (h : l.input.rest = Utf8.encodeChars ['\\', c] ++ rest) :
    ∃ l', (∀ commandOpen, wordStep escape commandOpen g l =
        (.ok (.more (Gathering.push { elements := g.settle l.filename } c l.position)), l')) ∧
      l'.input.rest = rest ∧ l'.filename = l.filename := by
  obtain ⟨l₁, l₂, hn, hpast, hfilename₁, hfilename₂, hrest⟩ := nextPastReturn_takes hreturn h
  refine ⟨l₂, fun commandOpen => ?_, hrest, hfilename₂⟩
  unfold wordStep wordRune
  simp [hn, role_backslash hbackslash, hpast, hfilename₁]

/-- Characters behind backslashes, up to the end, are a literal each. -/
theorem iterate_backslashed (hbackslash : escape.contains '\\' = false) {cs : List Char}
    (hcs : ∀ c ∈ cs, c ≠ '\n' ∧ c ≠ '\r') (g : Gathering)
    (h : l.input.rest = Utf8.encodeChars (cs.flatMap fun c => ['\\', c])) :
    ∃ literals : List Literal, literals.map Literal.text = cs.map String.singleton ∧ ∀ commandOpen, ∃ l',
      iterate (wordStep escape commandOpen) size_wordStep_lt g l =
        (.ok (Token.ofElements? (g.settle l.filename ++ literals.map .literal)), l') ∧
      l'.input.rest = [] := by
  -- each backslash settles the character before it, so what was gathered is any
  induction cs generalizing g l with
  | nil =>
    refine ⟨[], rfl, fun commandOpen => ?_⟩
    obtain ⟨l', hstep, hrest⟩ := wordStep_end escape commandOpen g h
    exact ⟨l', by rw [iterate_eq, hstep, List.map_nil, List.append_nil], hrest⟩
  | cons c cs ih =>
    obtain ⟨⟨hnewline, hreturn⟩, hcs⟩ := List.forall_mem_cons.mp hcs
    rw [List.flatMap_cons, Utf8.encodeChars_append] at h
    obtain ⟨l₁, hstep, hrest₁, hfilename⟩ := wordStep_backslash hbackslash hnewline hreturn g h
    obtain ⟨literals, htexts, hread⟩ := ih hcs _ hrest₁
    refine ⟨⟨String.singleton c, l.location⟩ :: literals, by rw [List.map_cons, List.map_cons, htexts],
      fun commandOpen => ?_⟩
    obtain ⟨l', hiterate, hrest⟩ := hread commandOpen
    have hsettle : (Gathering.push { elements := g.settle l.filename } c l.position).settle l₁.filename =
        g.settle l.filename ++ [.literal ⟨String.singleton c, l.location⟩] := by
      simp [Gathering.settle, Gathering.push, Draft.push, location, place, hfilename]
    refine ⟨l', ?_, hrest⟩
    rw [iterate_eq, hstep]
    refine hiterate.trans ?_
    rw [hsettle, List.append_assoc]
    rfl

end Lexer

/-! ## Protected texts -/

section

variable {escape : EscapeSet} {text : String}

/-- A text that is protected between double quotes is read as the text. -/
theorem isOneToken_doubleQuoted (filename : String) (hquote : escape.contains '"' = false) (text : String) :
    IsOneToken (Utf8.encode (doubleQuoted text)) filename escape (.literal filename text) := by
  refine Lexer.isOneToken_of_readOn (by simp) fun commandOpen => ?_
  have hconveys := Lexer.Conveys.flatMap Lexer.Conveys.of_protectChar text.toList
  have h : (Parser.ofCursor (Utf8.encode (doubleQuoted text)) filename escape).lexer.input.rest =
      Utf8.encodeChars ('"' :: text.toList.flatMap protectChar ++ ['"']) ++ [] := by
    rw [Parser.rest_ofCursor, Utf8.encode, doubleQuoted, String.toList_ofList, List.append_nil]
  obtain ⟨l, hread, hrest⟩ := Lexer.readOn_conveyed commandOpen [] hquote hconveys h
  rw [String.ofList_toList] at hread
  exact ⟨l, hread, hrest⟩

/-- A text with a backslash before every character is read as the text, unless a line ends in it. -/
theorem isOneToken_backslashed (filename : String) (hbackslash : escape.contains '\\' = false)
    (hne : text ≠ "") (hchars : ∀ c ∈ text.toList, c ≠ '\n' ∧ c ≠ '\r') :
    ∃ es, IsOneToken (Utf8.encode (backslashed text)) filename escape ⟨es⟩ ∧ SpellsOut text es := by
  have h : (Parser.ofCursor (Utf8.encode (backslashed text)) filename escape).lexer.input.rest =
      Utf8.encodeChars (text.toList.flatMap fun c => ['\\', c]) := by
    rw [Parser.rest_ofCursor, Utf8.encode, backslashed, String.toList_ofList]
  obtain ⟨literals, htexts, hread⟩ := Lexer.iterate_backslashed hbackslash hchars {} h
  have hjoin : String.join (literals.map Literal.text) = text := by
    rw [htexts, ← String.toList_inj]
    simp [List.flatMap_map]
  have hsome : Token.ofElements? (literals.map .literal) = some ⟨literals.map .literal⟩ := by
    cases literals with
    | nil => exact absurd hjoin.symm hne
    | cons literal literals => rfl
  refine ⟨literals.map .literal, isOneToken_of_cursor fun commandOpen => ?_, literals, rfl, hjoin⟩
  obtain ⟨l, hiterate, hrest⟩ := hread commandOpen
  refine ⟨l, hiterate.trans ?_, hrest⟩
  rw [← hsome]
  rfl

end

/-- Between double quotes, a text with a backslash before what means something there is one literal, which is
the text. Without quotes, one with a backslash before every character is one word, whose literals are
together the text, if it is not empty and has no line ends. -/
theorem protected_is_one_token (filename : String) (escape : EscapeSet) :
    (escape.contains '"' = false → ∀ text, IsOneToken (Utf8.encode (doubleQuoted text)) filename escape
      (.literal filename text)) ∧
    (escape.contains '\\' = false → ∀ text, text ≠ "" → '\n' ∉ text.toList → '\r' ∉ text.toList →
      ∃ es, IsOneToken (Utf8.encode (backslashed text)) filename escape ⟨es⟩ ∧ SpellsOut text es) := by
  refine ⟨isOneToken_doubleQuoted filename, fun hbackslash text hne hnewline hreturn => ?_⟩
  refine isOneToken_backslashed filename hbackslash hne fun c hc => ⟨?_, ?_⟩
  · rintro rfl
    exact hnewline hc
  · rintro rfl
    exact hreturn hc

/-- A text of what means something in and out of double quotes, and one of separators, blanks and quotes. -/
theorem protected_is_one_token_separators :
    EscapeSet.default.contains '"' = false ∧ EscapeSet.default.contains '\\' = false ∧
      IsOneToken (Utf8.encode "\"\\$\\\"\\`\\\\;\r\n'\x7b\"") "s" .default (.literal "s" "$\"`\\;\r\n'\x7b") ∧
      "; '|#" ≠ "" ∧ '\n' ∉ "; '|#".toList ∧ '\r' ∉ "; '|#".toList ∧
      ∃ es, IsOneToken (Utf8.encode "\\;\\ \\'\\|\\#") "s" .default ⟨es⟩ ∧ SpellsOut "; '|#" es := by
  have hquote : EscapeSet.default.contains '"' = false := by decide
  have hbackslash : EscapeSet.default.contains '\\' = false := by decide
  have hne : "; '|#" ≠ "" := by decide
  have hnewline : '\n' ∉ "; '|#".toList := by decide
  have hreturn : '\r' ∉ "; '|#".toList := by decide
  obtain ⟨hdouble, heach⟩ := protected_is_one_token "s" .default
  exact ⟨hquote, hbackslash, hdouble hquote "$\"`\\;\r\n'\x7b", hne, hnewline, hreturn,
    heach hbackslash "; '|#" hne hnewline hreturn⟩

end ShellScript
