import ShellScript.Proofs.Correspondence
import ShellScript.Proofs.Texts

/-!
# Passages of a text

What the reads that go byte by byte take of a text: the inside of raw quotes, a comment, the second half
of a double pipe. Each of them ends between two characters.
-/

namespace ShellScript.Lexer

variable {l l' : Lexer Cursor} {x : List Char} {rest : List UInt8}

/-- Noting an event takes no bytes. -/
theorem Takes.note {bytes : List UInt8} (h : l.Takes bytes l') (e : Event) :
    l.Takes bytes (l'.note e) :=
  ⟨h.rest, h.position, h.filename, h.tokenStart⟩

/-! ## Raw quotes -/

/-- Without a closing quote there is no raw quote, and all that is left has been read. -/
theorem readRawQuote_open (quote : QuoteKind) (opening : Position) (h : 0x27 ∉ l.input.rest) :
    ∃ l', l.readRawQuote quote opening =
      (.error (.unterminatedQuote quote (l.place opening)), l') ∧ l.Takes l.input.rest l' := by
  suffices hloop : ∀ bytes taken (l : Lexer Cursor), l.input.rest = bytes → 0x27 ∉ bytes →
      ∃ l', iterate (rawQuoteStep quote opening) size_rawQuoteStep_lt taken l =
        (.error (.unterminatedQuote quote (l.place opening)), l') ∧ l.Takes l.input.rest l' from
    hloop _ [] l rfl h
  intro bytes
  induction bytes with
  | nil =>
    intro taken l hl _
    refine ⟨{ l with input := { l.input with undo := none } }, ?_, by simp [hl], by rw [hl]; rfl, rfl, rfl⟩
    rw [iterate_eq]
    simp [rawQuoteStep, nextByte, Input.nextByte, Cursor.nextByte, hl, lift, place]
  | cons b bytes ih =>
    intro taken l hl hbytes
    obtain ⟨hb, hbytes⟩ : 0x27 ≠ b ∧ 0x27 ∉ bytes := by simpa using hbytes
    obtain ⟨l₁, hn, hl₁⟩ := nextByte_takes hl
    obtain ⟨l', hl', htakes⟩ := ih (b :: taken) l₁ (hl₁.rest_eq hl) hbytes
    have hplace : l₁.place opening = l.place opening := by rw [place, hl₁.filename, place]
    rw [hplace] at hl'
    refine ⟨l', ?_, hl₁.rest ▸ hl₁.trans htakes⟩
    rw [iterate_eq]
    simp only [rawQuoteStep, hn, hb.symm, if_false, hl']

/-- Raw quotes hold the characters up to the first single quote, if there is one. -/
theorem readRawQuote_chars (quote : QuoteKind) (opening : Position)
    (h : l.input.rest = Utf8.encodeChars x) :
    (∃ cs y l', x = cs ++ '\'' :: y ∧ '\'' ∉ cs ∧
      l.readRawQuote quote opening = (.ok (Utf8.encodeChars cs), l') ∧
      l.Takes (Utf8.encodeChars (cs ++ ['\''])) l') ∨
    ∃ l', l.readRawQuote quote opening =
      (.error (.unterminatedQuote quote (l.place opening)), l') ∧ l.Takes (Utf8.encodeChars x) l' := by
  by_cases hx : '\'' ∈ x
  · obtain ⟨cs, y, rfl, hcs⟩ := List.eq_append_cons_of_mem hx
    have hbytes : (0x27 : UInt8) ∉ Utf8.encodeChars cs :=
      fun hq => hcs (Utf8.mem_of_ascii_mem (d := '\'') (by decide) hq)
    have hrest : l.input.rest = Utf8.encodeChars cs ++ 0x27 :: Utf8.encodeChars y := by
      rw [h, Utf8.encodeChars_append]
      rfl
    obtain ⟨l', hr, htakes⟩ := readRawQuote_bytes quote opening hbytes hrest
    refine .inl ⟨cs, y, l', rfl, hcs, hr, ?_⟩
    rwa [Utf8.encodeChars_append]
  · rw [← h]
    refine .inr (readRawQuote_open quote opening ?_)
    rw [h]
    exact fun hq => hx (Utf8.mem_of_ascii_mem (d := '\'') (by decide) hq)

/-- Raw quotes that were read and the quote behind them begin the text that was left. -/
theorem chars_of_readRawQuote {quote : QuoteKind} {opening : Position} {bytes : List UInt8}
    (hx : l.input.rest = Utf8.encodeChars x) (h : l.readRawQuote quote opening = (.ok bytes, l')) :
    ∃ cs y, x = cs ++ '\'' :: y ∧ '\'' ∉ cs ∧ l'.input.rest = Utf8.encodeChars y := by
  obtain ⟨cs, y, l₁, rfl, hcs, hr, htakes⟩ | ⟨l₁, hr, -⟩ := readRawQuote_chars quote opening hx
  · rw [h] at hr
    cases hr
    refine ⟨cs, y, rfl, hcs, htakes.rest_eq ?_⟩
    rw [hx, ← Utf8.encodeChars_append, List.append_assoc]
    rfl
  · rw [h] at hr
    cases hr

/-! ## Comments -/

/-- A line is skipped up to its newline. -/
theorem skipToNewline_bytes {bytes : List UInt8} (rest : List UInt8) (hbytes : 0x0A ∉ bytes)
    (hrest : ∀ b ∈ rest.head?, b = 0x0A) (h : l.input.rest = bytes ++ rest) :
    ∃ l', l.skipToNewline = (.ok rest.head?.isSome, l') ∧ l.Takes bytes l' := by
  -- the loop is one over cursors; the lexer only carries it
  suffices hloop : ∀ c : Cursor, c.rest = bytes ++ rest →
      ∃ c', Input.skipToNewline c = (.ok rest.head?.isSome, c') ∧ c'.rest = rest ∧
        c'.position = bytes.foldl Position.afterByte c.position by
    obtain ⟨c', hc, hr, hp⟩ := hloop l.input h
    refine ⟨{ l with input := c' }, ?_, ?_⟩
    · simp only [skipToNewline, hc, lift]
    · exact ⟨by rw [h, hr], hp, rfl, rfl⟩
  clear h
  induction bytes with
  | nil =>
    intro c hc
    rw [List.nil_append] at hc
    rw [Correspondence.skipToNewline_eq]
    cases rest with
    | nil => exact ⟨c, by simp [Input.peekByte, hc], hc, rfl⟩
    | cons b rest =>
      have hb := hrest b rfl
      exact ⟨c, by simp [Input.peekByte, hc, hb], hc, rfl⟩
  | cons b bytes ih =>
    intro c hc
    obtain ⟨hb, hbytes⟩ : 0x0A ≠ b ∧ 0x0A ∉ bytes := by simpa using hbytes
    have hn : c.nextByte = (some b, ⟨bytes ++ rest, c.position.afterByte b, none⟩) := by
      simp [Cursor.nextByte, hc]
    obtain ⟨c', hc', hr, hp⟩ := ih hbytes _ (congrArg (fun p => p.2.rest) hn)
    refine ⟨c', ?_, hr, ?_⟩
    · rw [Correspondence.skipToNewline_eq]
      simp only [Input.peekByte, hc, List.cons_append, List.head?_cons, hb.symm, if_false,
        Input.nextByte, hn]
      rw [hn] at hc'
      exact hc'
    · rw [hp, hn]
      rfl

/-- A comment is a line that is skipped, and noted with whether it was the last one. -/
theorem skipComment_of_skipToNewline {found : Bool} (h : l.skipToNewline = (.ok found, l')) :
    l.skipComment = (.ok found, l'.note (.comment l.position.line (!found))) := by
  simp only [skipComment, h]

/-- A comment holds the characters up to the first newline, or all that there are. -/
theorem skipComment_chars (h : l.input.rest = Utf8.encodeChars x) :
    (∃ cs y l', x = cs ++ '\n' :: y ∧ '\n' ∉ cs ∧ l.skipComment = (.ok true, l') ∧
      l.Takes (Utf8.encodeChars cs) l') ∨
    '\n' ∉ x ∧ ∃ l', l.skipComment = (.ok false, l') ∧ l.Takes (Utf8.encodeChars x) l' := by
  have hbytes {cs : List Char} (hcs : '\n' ∉ cs) : (0x0A : UInt8) ∉ Utf8.encodeChars cs :=
    fun hmem => hcs (Utf8.mem_of_ascii_mem (d := '\n') (by decide) hmem)
  by_cases hx : '\n' ∈ x
  · obtain ⟨cs, y, rfl, hcs⟩ := List.eq_append_cons_of_mem hx
    obtain ⟨l', hs, htakes⟩ := skipToNewline_bytes (0x0A :: Utf8.encodeChars y) (hbytes hcs)
      (by simp) (by rw [h, Utf8.encodeChars_append]; rfl)
    exact .inl ⟨cs, y, _, rfl, hcs, skipComment_of_skipToNewline hs, htakes.note _⟩
  · obtain ⟨l', hs, htakes⟩ := skipToNewline_bytes [] (hbytes hx) (by simp)
      (by rw [h, List.append_nil])
    exact .inr ⟨hx, _, skipComment_of_skipToNewline hs, htakes.note _⟩

/-- A comment that was skipped begins the text that was left, and what is behind it, if there is anything,
is a newline. -/
theorem chars_of_skipComment {found : Bool} (hx : l.input.rest = Utf8.encodeChars x)
    (h : l.skipComment = (.ok found, l')) :
    ∃ cs y, x = cs ++ y ∧ '\n' ∉ cs ∧ (∀ c ∈ y.head?, c = '\n') ∧
      l'.input.rest = Utf8.encodeChars y := by
  obtain ⟨cs, y, l₁, rfl, hcs, hs, htakes⟩ | ⟨hnone, l₁, hs, htakes⟩ := skipComment_chars hx
  · rw [h] at hs
    cases hs
    refine ⟨cs, '\n' :: y, rfl, hcs, by simp, htakes.rest_eq ?_⟩
    rw [hx, Utf8.encodeChars_append]
  · rw [h] at hs
    cases hs
    exact ⟨x, [], (List.append_nil x).symm, hnone, by simp, htakes.rest_eq (by simpa using hx)⟩

/-! ## Pipes -/

/-- After a word a pipe is double if another one follows, which is then taken. -/
theorem readPipe_chars (here : Position) (h : l.input.rest = Utf8.encodeChars x) :
    (∃ y l', x = '|' :: y ∧ l.readPipe here true = (.ok .pipePipe, l') ∧
      l.Takes (Utf8.encodeChars ['|']) l') ∨
    x.head? ≠ some '|' ∧ l.readPipe here true = (.ok .pipe, l) := by
  by_cases hx : x.head? = some '|'
  · obtain ⟨y, rfl⟩ := List.head?_eq_some_iff.mp hx
    have hrest : l.input.rest = 0x7C :: Utf8.encodeChars y := h
    obtain ⟨l', hn, htakes⟩ := nextByte_takes hrest
    refine .inl ⟨y, _, rfl, ?_, htakes.note (.pipePair here)⟩
    simp [readPipe, peekByte, Input.peekByte, hrest, lift, hn]
  · refine .inr ⟨hx, ?_⟩
    have hhead : l.input.rest.head? ≠ some 0x7C := by
      rw [h]
      exact fun hc => hx (Utf8.head?_of_ascii_head? (d := '|') (by decide) hc)
    simp only [readPipe, peekByte, Input.peekByte, lift]
    cases hr : l.input.rest.head? with
    | none => rfl
    | some b =>
      have hb : b ≠ 0x7C := fun heq => hhead (hr.trans (congrArg some heq))
      simp [hb]

end ShellScript.Lexer
