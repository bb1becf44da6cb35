import ShellScript.Proofs.Agreement
import ShellScript.Proofs.Elements
import ShellScript.Proofs.Runes

/-!
# Words that are read from their source

What the loop over a token does with the source of an element: `readOn_quote`, `readOn_reference` and
`readOn_substitution` say that it adds the element to what was read before, whatever comes after it. A
literal may come back as several, which together have its text.
-/

namespace ShellScript

namespace Lexer

variable {escape : EscapeSet} {commandOpen : Bool}

/-- Reads a token to its end, given the elements that were read already. -/
def readOn {σ : Type} [Input σ] (escape : EscapeSet) (commandOpen : Bool) (es : List Element)
    (l : Lexer σ) : Read σ (Option Token) :=
  iterate (wordStep escape commandOpen) size_wordStep_lt { elements := es } l

/-- Complete elements are there when no text follows. -/
@[simp] theorem settle_elements (es : List Element) (filename : String) :
    Gathering.settle { elements := es } filename = es := by
  simp [Gathering.settle]

/-- Reading on after a character, given what it does. -/
theorem readOn_of_wordRune {σ : Type} [Input σ] {l l₁ l₂ : Lexer σ} {c : Char} {es fs : List Element}
    (hc : l.nextRune = (.ok (some c), l₁))
    (h : wordRune escape commandOpen { elements := es } l.position c l₁ =
      (.ok (.more { elements := fs }), l₂)) :
    readOn escape commandOpen es l = readOn escape commandOpen fs l₂ := by
  rw [readOn, iterate_eq]
  simp only [wordStep, hc, h]
  rfl

/-- A character that is not in the escape set has the role that it has without one. -/
theorem role_eq_of_not_contains {c : Char} (h : escape.contains c = false) :
    role escape c = role .empty c := by
  have hempty : EscapeSet.empty.contains c = false := by simp [EscapeSet.contains, EscapeSet.empty]
  unfold role EscapeSet.separator?
  rw [h, hempty]

/-- A single quote that was not chosen as a separator opens quotes. -/
theorem role_singleQuote (h : escape.contains '\'' = false) : role escape '\'' = .singleQuote :=
  (role_eq_of_not_contains h).trans (by decide)

/-- So does a double quote. -/
theorem role_doubleQuote (h : escape.contains '"' = false) : role escape '"' = .doubleQuote :=
  (role_eq_of_not_contains h).trans (by decide)

/-- A dollar sign that was not chosen introduces expansions. -/
theorem role_dollar (h : escape.contains '$' = false) : role escape '$' = .dollar :=
  (role_eq_of_not_contains h).trans (by decide)

/-- A space that was not chosen is a blank. -/
theorem role_space (h : escape.contains ' ' = false) : role escape ' ' = .blank :=
  (role_eq_of_not_contains h).trans (by decide)

/-- Some roles belong to one character each. -/
theorem eq_of_role {c : Char} {r : Role} (h : role escape c = r) :
    match r with
    | .backslash => c = '\\'
    | .singleQuote => c = '\''
    | .doubleQuote => c = '"'
    | .dollar => c = '$'
    | .comment => c = '#'
    | _ => True := by
  unfold role at h
  split at h
  · subst h
    trivial
  · split at h
    · subst h
      trivial
    · split at h <;> subst h <;> first | rfl | trivial

variable {l : Lexer Cursor} {rest : List UInt8} {es : List Element}

/-! ## The end of the input -/

/-- At the end of the input a token is what was gathered. -/
theorem wordStep_end (escape : EscapeSet) (commandOpen : Bool) (g : Gathering) (h : l.input.rest = []) :
    ∃ l', wordStep escape commandOpen g l =
        (.ok (.done (Token.ofElements? (g.settle l.filename))), l') ∧ l'.input.rest = [] := by
  obtain ⟨l', hn, htakes⟩ := nextRune_takes_none h
  refine ⟨l', ?_, htakes.rest_eq h⟩
  simp only [wordStep, hn]

/-- At the end of the input it is the elements that were read. -/
theorem readOn_end (escape : EscapeSet) (commandOpen : Bool) (es : List Element)
    (h : l.input.rest = []) :
    ∃ l', readOn escape commandOpen es l = (.ok (Token.ofElements? es), l') ∧ l'.input.rest = [] := by
  obtain ⟨l', hstep, hl'⟩ := wordStep_end escape commandOpen { elements := es } h
  rw [settle_elements] at hstep
  exact ⟨l', by rw [readOn, iterate_eq, hstep], hl'⟩

/-- At the end of the input there is no token. -/
theorem readToken_end (escape : EscapeSet) (commandOpen : Bool) (h : l.input.rest = []) :
    ∃ l', l.readToken escape commandOpen = (.ok none, l') ∧ l'.input.rest = [] :=
  readOn_end escape commandOpen [] h

/-! ## Quotes -/

/-- Bytes between single quotes are one literal. -/
theorem readOn_singleQuotes (commandOpen : Bool) (es : List Element)
    (hquote : escape.contains '\'' = false) {bytes : List UInt8} (hbytes : 0x27 ∉ bytes)
    (h : l.input.rest = 0x27 :: (bytes ++ 0x27 :: rest)) :
    ∃ l', readOn escape commandOpen es l = readOn escape commandOpen
        (es ++ [.literal ⟨Utf8.decodeLossy bytes, l.location⟩]) l' ∧ l'.input.rest = rest := by
  obtain ⟨l₁, hn, htakes₁, -⟩ := nextRune_takes (c := '\'') h
  have h₁ : l₁.input.rest = bytes ++ 0x27 :: rest := htakes₁.rest_eq h
  obtain ⟨l₂, hr, htakes₂⟩ := readRawQuote_bytes .single l.position hbytes h₁
  refine ⟨l₂, readOn_of_wordRune hn ?_, htakes₂.rest_eq (by simpa using h₁)⟩
  unfold wordRune readSingleQuoted
  simp only [role_singleQuote hquote, hr, settle_elements, location, place,
    htakes₁.filename]

/-- Text between single quotes is one literal. -/
theorem readOn_singleQuoted (hquote : escape.contains '\'' = false) {cs : List Char}
    (hcs : '\'' ∉ cs) (h : l.input.rest = Utf8.encodeChars ('\'' :: cs ++ ['\'']) ++ rest) :
    ∃ literal l', readOn escape commandOpen es l =
        readOn escape commandOpen (es ++ [.literal literal]) l' ∧
      literal.text = String.ofList cs ∧ l'.input.rest = rest := by
  have hbytes : 0x27 ∉ Utf8.encodeChars cs :=
    fun hq => hcs (Utf8.mem_of_ascii_mem (d := '\'') (by decide) hq)
  have hquotes : Utf8.encodeChars ('\'' :: cs ++ ['\'']) ++ rest =
      0x27 :: (Utf8.encodeChars cs ++ 0x27 :: rest) := by
    simp [String.utf8EncodeChar]
  obtain ⟨l', hr, hl'⟩ := readOn_singleQuotes commandOpen es hquote hbytes (h.trans hquotes)
  exact ⟨_, l', hr, congrArg String.ofList (Utf8.lossyChars_encodeChars cs), hl'⟩

/-- Inside double quotes, all but four characters are text. -/
theorem adds_doubleQuoteStep (opening : Position) {c : Char} (hc : c ∉ ['"', '$', '`', '\\']) :
    Adds (doubleQuoteStep opening) c := by
  intro g l l₁ hn
  simp only [List.mem_cons, List.not_mem_nil, or_false, not_or] at hc
  unfold doubleQuoteStep
  simp only [hn, hc, if_false]

/-- What was gathered between double quotes is one literal when they close. -/
theorem readDoubleQuoted_of_gathered (opening : Position) {text : String} {l₁ : Lexer Cursor}
    (hrun : iterate (doubleQuoteStep opening) size_doubleQuoteStep_lt ⟨[], ⟨"", some opening⟩⟩ l =
      iterate (doubleQuoteStep opening) size_doubleQuoteStep_lt ⟨[], ⟨text, some opening⟩⟩ l₁)
    (hfilename : l₁.filename = l.filename) (h : l₁.input.rest = 0x22 :: rest) :
    ∃ l', l.readDoubleQuoted opening = (.ok [.literal ⟨text, l.place opening⟩], l') ∧
      l'.input.rest = rest := by
  obtain ⟨l₂, hn, htakes, -⟩ := nextRune_takes (c := '"') h
  refine ⟨l₂, ?_, htakes.rest_eq h⟩
  have hlast (g : Gathering) : doubleQuoteStep opening g l₁ =
      (.ok (.done (closeQuotes (l₁.place opening) (g.settle l₁.filename))), l₂) := by
    unfold doubleQuoteStep
    simp only [hn]
    rfl
  have hclose : closeQuotes (l₁.place opening)
      (Gathering.settle ⟨[], ⟨text, some opening⟩⟩ l₁.filename) = [.literal ⟨text, l.place opening⟩] := by
    by_cases htext : text = "" <;> simp [Gathering.settle, closeQuotes, htext, place, hfilename]
  rw [readDoubleQuoted]
  refine hrun.trans ?_
  rw [iterate_eq, hlast, hclose]

/-- Bytes between double quotes without those characters are one literal. -/
theorem readDoubleQuoted_bytes (opening : Position) {bytes : List UInt8}
    (hbytes : ∀ c ∈ ['"', '$', '`', '\\'], Utf8.ascii c ∉ bytes)
    (h : l.input.rest = bytes ++ 0x22 :: rest) :
    ∃ l', l.readDoubleQuoted opening =
        (.ok [.literal ⟨String.ofList (Utf8.runes bytes), l.place opening⟩], l') ∧
      l'.input.rest = rest := by
  have hadds : ∀ c ∈ Utf8.runes bytes, Adds (doubleQuoteStep opening) c := by
    intro c hc
    refine adds_doubleQuoteStep opening fun hspecial => ?_
    have hascii : c.toNat < 128 := by
      revert hspecial
      simp only [List.mem_cons, List.not_mem_nil, or_false]
      rintro (rfl | rfl | rfl | rfl) <;> decide
    exact hbytes c hspecial (Utf8.ascii_mem_of_mem_runes hascii hc)
  have hclosing : ∀ b ∈ (0x22 :: rest).head?, Utf8.isContinuation b = false := by
    rintro b ⟨rfl⟩
    decide
  obtain ⟨l₁, hrun, hrest, hfilename⟩ := iterate_runes size_doubleQuoteStep_lt hadds
    hclosing [] "" opening h
  rw [String.empty_append] at hrun
  exact readDoubleQuoted_of_gathered opening hrun hfilename hrest

/-- Double quotes add their elements to the word. -/
theorem readOn_of_readDoubleQuoted (hquote : escape.contains '"' = false) {l₁ l₂ : Lexer Cursor}
    {fs : List Element} (hc : l.nextRune = (.ok (some '"'), l₁))
    (h : l₁.readDoubleQuoted l.position = (.ok fs, l₂)) :
    readOn escape commandOpen es l = readOn escape commandOpen (es ++ fs) l₂ := by
  refine readOn_of_wordRune hc ?_
  unfold wordRune
  simp only [role_doubleQuote hquote, h, settle_elements]

/-- Between double quotes, bytes that are not special add a literal with their characters. -/
theorem readOn_doubleQuotes (commandOpen : Bool) (es : List Element)
    (hquote : escape.contains '"' = false) {bytes : List UInt8}
    (hbytes : ∀ c ∈ ['"', '$', '`', '\\'], Utf8.ascii c ∉ bytes)
    (h : l.input.rest = 0x22 :: (bytes ++ 0x22 :: rest)) :
    ∃ l', readOn escape commandOpen es l = readOn escape commandOpen
        (es ++ [.literal ⟨String.ofList (Utf8.runes bytes), l.location⟩]) l' ∧ l'.input.rest = rest := by
  obtain ⟨l₁, hn, htakes, -⟩ := nextRune_takes (c := '"') h
  obtain ⟨l₂, hr, hl₂⟩ := readDoubleQuoted_bytes l.position hbytes (htakes.rest_eq h)
  refine ⟨l₂, (readOn_of_readDoubleQuoted hquote hn hr).trans ?_, hl₂⟩
  simp only [location, place, htakes.filename]

/-- A single quote between double quotes is one literal. -/
theorem readOn_apostrophe (hquote : escape.contains '"' = false)
    (h : l.input.rest = Utf8.encodeChars ['"', '\'', '"'] ++ rest) :
    ∃ literal l', readOn escape commandOpen es l =
        readOn escape commandOpen (es ++ [.literal literal]) l' ∧
      literal.text = "'" ∧ l'.input.rest = rest := by
  have hbytes : ∀ c ∈ ['"', '$', '`', '\\'], Utf8.ascii c ∉ [0x27] := by simp [Utf8.ascii]
  obtain ⟨l', hr, hl'⟩ := readOn_doubleQuotes commandOpen es hquote hbytes h
  exact ⟨_, l', hr, congrArg String.ofList (Utf8.runes_encodeChars ['\'']), hl'⟩

/-- Within quoted text, between two of its single quotes: `cs` was written, `ds` is still to be. -/
theorem readOn_quoteChars (hsingle : escape.contains '\'' = false)
    (hdouble : escape.contains '"' = false) {cs ds : List Char} (hcs : '\'' ∉ cs)
    (h : l.input.rest = Utf8.encodeChars ('\'' :: cs ++ (ds.flatMap quoteChar ++ ['\''])) ++ rest) :
    ∃ literals l', readOn escape commandOpen es l =
        readOn escape commandOpen (es ++ literals.map .literal) l' ∧
      literals ≠ [] ∧ String.join (literals.map Literal.text) = String.ofList (cs ++ ds) ∧
      l'.input.rest = rest := by
  induction ds generalizing cs es l with
  | nil =>
    obtain ⟨literal, l', hr, htext, hl'⟩ := readOn_singleQuoted hsingle hcs h
    exact ⟨[literal], l', hr, by simp, by simp [htext], hl'⟩
  | cons d ds ih =>
    by_cases hd : d = '\''
    · subst hd
      -- the quote closes, an apostrophe stands between double quotes, and the quote opens again
      have h₁ : l.input.rest = Utf8.encodeChars ('\'' :: cs ++ ['\'']) ++
          (Utf8.encodeChars ['"', '\'', '"'] ++
            (Utf8.encodeChars ('\'' :: [] ++ (ds.flatMap quoteChar ++ ['\''])) ++ rest)) := by
        rw [h]
        simp [quoteChar]
      obtain ⟨first, l₁, hr₁, htext₁, hl₁⟩ := readOn_singleQuoted hsingle hcs h₁
      obtain ⟨second, l₂, hr₂, htext₂, hl₂⟩ := readOn_apostrophe hdouble hl₁
      obtain ⟨literals, l', hr, -, htext, hl'⟩ := ih (by simp) hl₂
      refine ⟨first :: second :: literals, l', ?_, by simp, ?_, hl'⟩
      · rw [hr₁, hr₂, hr]
        simp
      · simp only [List.map_cons, String.join_cons, htext₁, htext₂, htext]
        rw [← String.toList_inj]
        simp
    · have h₁ : l.input.rest =
          Utf8.encodeChars ('\'' :: (cs ++ [d]) ++ (ds.flatMap quoteChar ++ ['\''])) ++ rest := by
        rw [h]
        simp [quoteChar, hd]
      have hmem : '\'' ∉ cs ++ [d] := by simpa [hcs] using Ne.symm hd
      obtain ⟨literals, l', hr, hne, htext, hl'⟩ := ih hmem h₁
      exact ⟨literals, l', hr, hne, by simpa using htext, hl'⟩

/-- Quoted text comes back as literals that together are the text. -/
theorem readOn_quote (hsingle : escape.contains '\'' = false)
    (hdouble : escape.contains '"' = false) (text : String)
    (h : l.input.rest = Utf8.encode (quote text) ++ rest) :
    ∃ literals l', readOn escape commandOpen es l =
        readOn escape commandOpen (es ++ literals.map .literal) l' ∧
      literals ≠ [] ∧ String.join (literals.map Literal.text) = text ∧ l'.input.rest = rest := by
  have h₁ : l.input.rest =
      Utf8.encodeChars ('\'' :: [] ++ (text.toList.flatMap quoteChar ++ ['\''])) ++ rest := by
    rw [h, Utf8.encode, quote, String.toList_ofList]
    rfl
  obtain ⟨literals, l', hr, hne, htext, hl'⟩ :=
    readOn_quoteChars hsingle hdouble List.not_mem_nil h₁
  exact ⟨literals, l', hr, hne, by simpa using htext, hl'⟩

/-! ## References and substitutions -/

/-- A dollar sign adds what it introduces to the word. -/
theorem readOn_of_readDollar (hdollar : escape.contains '$' = false) {l₁ l₂ : Lexer Cursor}
    {fs : List Element} (hc : l.nextRune = (.ok (some '$'), l₁))
    (h : l₁.readDollar l.position = (.ok (.elements fs), l₂)) :
    readOn escape commandOpen es l = readOn escape commandOpen (es ++ fs) l₂ := by
  refine readOn_of_wordRune hc ?_
  unfold wordRune
  simp only [role_dollar hdollar, h, settle_elements]

/-- Behind a dollar sign, only quotes make a difference between inside and outside double quotes. -/
theorem readDollar_eq_readInnerDollar (dollar : Position) {l₁ : Lexer Cursor} {c : Char}
    (hn : l.nextRune = (.ok (some c), l₁)) (hsingle : c ≠ '\'') (hdouble : c ≠ '"') :
    l.readDollar dollar = l.readInnerDollar dollar := by
  unfold readDollar readInnerDollar
  simp only [hn, hsingle, hdouble, if_false]

/-- A reference comes back from its braced form. -/
theorem readOn_reference (hdollar : escape.contains '$' = false) {v : VariableRef}
    (hv : (Element.reference v).Readable) (h : l.input.rest = Utf8.encode v.toSource ++ rest) :
    ∃ l', readOn escape commandOpen es l = readOn escape commandOpen (es ++ [.reference v]) l' ∧
      l'.input.rest = rest := by
  obtain ⟨hbody, hof⟩ := hv
  have h₁ : l.input.rest = String.utf8EncodeChar '$' ++ (String.utf8EncodeChar '{' ++
      (Utf8.encodeChars v.body.toList ++ (String.utf8EncodeChar '}' ++ rest))) := by
    rw [h]
    simp [Utf8.encode, VariableRef.toSource]
  obtain ⟨l₁, hn₁, hl₁, -⟩ := nextRune_encoded h₁
  obtain ⟨l₂, hn₂, hl₂, -⟩ := nextRune_encoded hl₁
  obtain ⟨l₃, hr, hl₃⟩ := readBody_chars "`$\x7b`" hbody hl₂
  refine ⟨l₃, readOn_of_readDollar hdollar hn₁ ?_, hl₃⟩
  rw [String.ofList_toList] at hr
  rw [readDollar_eq_readInnerDollar _ hn₂ (by decide) (by decide)]
  unfold readInnerDollar readExpansion readBraced
  simp only [hn₂, if_true, hr, hof]

/-- A substitution comes back with its script. -/
theorem readSubstitution_chars (dollar : Position) {source : String}
    (hsource : Brackets.parentheses.Encloses source.toList) (hhead : source.toList.head? ≠ some '(')
    (h : l.input.rest = Utf8.encodeChars source.toList ++ (String.utf8EncodeChar ')' ++ rest)) :
    ∃ l', l.readSubstitution dollar = (.ok ⟨source, l.place dollar⟩, l') ∧ l'.input.rest = rest := by
  -- what comes first is the body, or the closing parenthesis if the body is empty
  obtain ⟨c, bytes, hc, hne⟩ : ∃ c bytes, l.input.rest = String.utf8EncodeChar c ++ bytes ∧ c ≠ '(' := by
    cases hs : source.toList with
    | nil => exact ⟨')', rest, by simpa [hs] using h, by decide⟩
    | cons c cs =>
      rw [hs] at h hhead
      exact ⟨c, _, by simpa using h, by simpa using hhead⟩
  obtain ⟨l₁, hn, -, hback⟩ := nextRune_encoded hc
  obtain ⟨l₂, hr, hl₂⟩ := readBody_chars "`$(`" hsource (hback.trans h)
  rw [String.ofList_toList] at hr
  refine ⟨l₂, ?_, hl₂⟩
  unfold readSubstitution
  simp only [hn, hne, if_false, readSubstitutionBody, hr]

/-- A substitution comes back with its script, and with the origin where it stands now. -/
theorem readOn_substitution (commandOpen : Bool) (es : List Element)
    (hdollar : escape.contains '$' = false) {s : CommandSubstitution}
    (hs : (Element.substitution s).Readable)
    (h : l.input.rest = Utf8.encode (Element.substitution s).toSource ++ rest) :
    ∃ origin l', readOn escape commandOpen es l =
        readOn escape commandOpen (es ++ [.substitution { s with origin }]) l' ∧
      l'.input.rest = rest := by
  obtain ⟨hsource, hhead⟩ := hs
  have h₁ : l.input.rest = String.utf8EncodeChar '$' ++ (String.utf8EncodeChar '(' ++
      (Utf8.encodeChars s.source.toList ++ (String.utf8EncodeChar ')' ++ rest))) := by
    rw [h]
    simp [Utf8.encode, Element.toSource]
  obtain ⟨l₁, hn₁, hl₁, -⟩ := nextRune_encoded h₁
  obtain ⟨l₂, hn₂, hl₂, -⟩ := nextRune_encoded hl₁
  obtain ⟨l₃, hr, hl₃⟩ := readSubstitution_chars l.position hsource hhead hl₂
  refine ⟨l₂.place l.position, l₃, readOn_of_readDollar hdollar hn₁ ?_, hl₃⟩
  rw [readDollar_eq_readInnerDollar _ hn₂ (by decide) (by decide)]
  unfold readInnerDollar readExpansion
  simp [hn₂, hr]

end Lexer

end ShellScript
