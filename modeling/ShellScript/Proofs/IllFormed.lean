import ShellScript.Proofs.ChosenSeparators

/-!
# Ill-formed text in and out of quotes

Single quotes take bytes and make text of all of them at once; double quotes and bare words take one
character at a time. The three readings of the same bytes are compared in `quotes_agree_iff`: double quotes
and bare words always agree, and single quotes agree with them unless a sequence breaks off behind its
second byte.
-/

namespace ShellScript

/-- A token that is one literal, at the start of a text. -/
def Token.literal (filename text : String) : Token := ⟨[.literal ⟨text, ⟨filename, .start⟩⟩]⟩

variable {bytes : List UInt8} {filename : String} {escape : EscapeSet}

/-- In single quotes, bytes are decoded together. -/
theorem isOneToken_singleQuotes (filename : String) (hquote : escape.contains '\'' = false)
    (hbytes : 0x27 ∉ bytes) : IsOneToken (0x27 :: (bytes ++ [0x27])) filename escape
      (.literal filename (Utf8.decodeLossy bytes)) :=
  Lexer.isOneToken_of_readOn (by simp) fun commandOpen =>
    Lexer.readOn_singleQuotes commandOpen [] hquote hbytes rfl

/-- In double quotes, they are decoded one character at a time. -/
theorem isOneToken_doubleQuotes (filename : String) (hquote : escape.contains '"' = false)
    (hbytes : ∀ c ∈ ['"', '$', '`', '\\'], Utf8.ascii c ∉ bytes) :
    IsOneToken (0x22 :: (bytes ++ [0x22])) filename escape
      (.literal filename (String.ofList (Utf8.runes bytes))) :=
  Lexer.isOneToken_of_readOn (by simp) fun commandOpen =>
    Lexer.readOn_doubleQuotes commandOpen [] hquote hbytes rfl

/-- So they are without quotes, where none of them means anything else. -/
theorem isOneToken_safe (filename : String) (escape : EscapeSet) (hne : bytes ≠ [])
    (hsafe : ∀ c, c.toNat < 128 → Utf8.ascii c ∈ bytes → isShellSafe c = true) :
    IsOneToken bytes filename escape (.literal filename (String.ofList (Utf8.runes bytes))) := by
  have hrunes : ∀ c ∈ Utf8.runes bytes, isShellSafe c = true := by
    intro c hc
    by_cases hascii : c.toNat < 128
    · exact hsafe c hascii (Utf8.ascii_mem_of_mem_runes hascii hc)
    · simp [isShellSafe, Nat.not_lt.mp hascii]
  refine isOneToken_of_cursor fun commandOpen => ?_
  let l := (Parser.ofCursor bytes filename escape).lexer
  obtain ⟨l₁, hread, hrest, hfilename⟩ := Lexer.readToken_safe escape commandOpen hne hrunes
    (by simp) (l := l) (List.append_nil bytes).symm
  obtain ⟨l₂, hlast, hleft⟩ := Lexer.wordStep_end escape commandOpen
    ⟨[], ⟨String.ofList (Utf8.runes bytes), some l.position⟩⟩ hrest
  refine ⟨l₂, ?_, hleft⟩
  have htext : String.ofList (Utf8.runes bytes) ≠ "" := by
    obtain ⟨lead, rest, rfl⟩ := List.exists_cons_of_ne_nil hne
    simp [Utf8.runes_cons]
  have hsettle : Gathering.settle ⟨[], ⟨String.ofList (Utf8.runes bytes), some l.position⟩⟩ l₁.filename =
      [.literal ⟨String.ofList (Utf8.runes bytes), ⟨filename, .start⟩⟩] := by
    rw [hfilename]
    simp only [Gathering.settle, String.isEmpty_iff, htext, if_false, List.nil_append]
    rfl
  rw [hread, Lexer.iterate_eq, hlast, hsettle]
  rfl

/-- The three readings of bytes that hold no quotes, backslashes, dollar signs or backticks. Between single
quotes they are one literal, and between double quotes; these have the same text if and only if no sequence
breaks off in the bytes behind its second byte, as none does in the bytes of a text. Bytes whose ASCII
characters all join text are a literal without quotes too, which has the text of the one in double quotes. -/
theorem quotes_agree_iff (filename : String) (hsingle : escape.contains '\'' = false)
    (hdouble : escape.contains '"' = false)
    (hbytes : ∀ c ∈ ['\'', '"', '$', '`', '\\'], Utf8.ascii c ∉ bytes) :
    IsOneToken (0x27 :: (bytes ++ [0x27])) filename escape
        (.literal filename (Utf8.decodeLossy bytes)) ∧
      IsOneToken (0x22 :: (bytes ++ [0x22])) filename escape
        (.literal filename (String.ofList (Utf8.runes bytes))) ∧
      (Utf8.decodeLossy bytes = String.ofList (Utf8.runes bytes) ↔ Utf8.Unbroken bytes) ∧
      (∀ cs, bytes = Utf8.encodeChars cs → Utf8.Unbroken bytes) ∧
      (bytes ≠ [] → (∀ c, c.toNat < 128 → Utf8.ascii c ∈ bytes → isShellSafe c = true) →
        IsOneToken bytes filename escape (.literal filename (String.ofList (Utf8.runes bytes)))) := by
  rw [List.forall_mem_cons] at hbytes
  refine ⟨isOneToken_singleQuotes filename hsingle hbytes.1,
    isOneToken_doubleQuotes filename hdouble hbytes.2, ?_, ?_, isOneToken_safe filename escape⟩
  · rw [Utf8.decodeLossy, String.ofList_inj, Utf8.lossyChars_eq_runes_iff]
  · rintro cs rfl
    exact Utf8.unbroken_encodeChars cs

/-- Bytes that start no sequence, before and behind a letter, and one that starts one and has no other
behind it. -/
theorem quotes_agree_iff_lone :
    let bytes : List UInt8 := [0xFF, 0x61, 0x80, 0xE2]
    EscapeSet.default.contains '\'' = false ∧ EscapeSet.default.contains '"' = false ∧
      (∀ c ∈ ['\'', '"', '$', '`', '\\'], Utf8.ascii c ∉ bytes) ∧ Utf8.Unbroken bytes ∧
      IsOneToken [0x27, 0xFF, 0x61, 0x80, 0xE2, 0x27] "s" .default (.literal "s" "\uFFFDa\uFFFD\uFFFD") ∧
      IsOneToken [0x22, 0xFF, 0x61, 0x80, 0xE2, 0x22] "s" .default (.literal "s" "\uFFFDa\uFFFD\uFFFD") ∧
      IsOneToken bytes "s" .default (.literal "s" "\uFFFDa\uFFFD\uFFFD") := by
  intro bytes
  have hsingle : EscapeSet.default.contains '\'' = false := by decide
  have hdouble : EscapeSet.default.contains '"' = false := by decide
  have hbytes : ∀ c ∈ ['\'', '"', '$', '`', '\\'], Utf8.ascii c ∉ bytes := by
    simp [bytes, Utf8.ascii]
  have hlossy : Utf8.decodeLossy bytes = "\uFFFDa\uFFFD\uFFFD" := by decide +kernel
  have hrunes : String.ofList (Utf8.runes bytes) = "\uFFFDa\uFFFD\uFFFD" := by decide +kernel
  have hsafe : ∀ c, c.toNat < 128 → Utf8.ascii c ∈ bytes → isShellSafe c = true := by
    intro c hc hmem
    have hletter : Utf8.ascii c = Utf8.ascii 'a' := by
      have hlt : (Utf8.ascii c).toNat < 128 := by
        rw [Utf8.ascii, UInt8.toNat_ofNat']
        omega
      simp only [bytes, List.mem_cons, List.not_mem_nil, or_false] at hmem
      rcases hmem with h | h | h | h
      · simp [h] at hlt
      · exact h
      · simp [h] at hlt
      · simp [h] at hlt
    rw [Utf8.ascii_inj hc (by decide) hletter]
    decide
  obtain ⟨hfirst, hsecond, hsame, -, hthird⟩ := quotes_agree_iff "s" hsingle hdouble hbytes
  have hunbroken := hsame.mp (hlossy.trans hrunes.symm)
  rw [hlossy] at hfirst
  rw [hrunes] at hsecond hthird
  exact ⟨hsingle, hdouble, hbytes, hunbroken, hfirst, hsecond, hthird (by simp [bytes]) hsafe⟩

/-- Of a sequence of three bytes that breaks off behind its second one, single quotes make one U+FFFD and
double quotes two. -/
theorem quotes_disagree : ¬∀ (bytes : List UInt8) (single double : String),
    (∀ c ∈ ['\'', '"', '$', '`', '\\'], Utf8.ascii c ∉ bytes) →
    IsOneToken (0x27 :: (bytes ++ [0x27])) "s" .default (.literal "s" single) →
    IsOneToken (0x22 :: (bytes ++ [0x22])) "s" .default (.literal "s" double) → single = double := by
  intro h
  have hbytes : ∀ c ∈ ['\'', '"', '$', '`', '\\'], Utf8.ascii c ∉ [0xE2, 0x82] := by
    simp [Utf8.ascii]
  have hsame := h [0xE2, 0x82] _ _ hbytes
    (isOneToken_singleQuotes "s" (by decide) (hbytes '\'' (by simp)))
    (isOneToken_doubleQuotes "s" (by decide) fun c hc => hbytes c (List.mem_cons_of_mem _ hc))
  exact absurd hsame (by decide +kernel)

end ShellScript
