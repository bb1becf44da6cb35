import ShellScript.Proofs.Continuations

/-!
# Words at the end of a line

A word that is open where a text ends is also read from a longer text, if what follows is a comment, a
carriage return or a newline. What the lexer makes of these is what `Closes` says, and `Sim.readToken_line`
compares the two reads.
-/

namespace ShellScript

/-- The end of a line: the end of the text, or a newline with more behind it. -/
inductive LineEnd : List UInt8 → Prop
  | last : LineEnd []
  | newline (rest : List UInt8) : LineEnd (0x0A :: rest)

/-- What may stand behind the words of a line, with the end of the line in it. -/
inductive Trailer : List UInt8 → List UInt8 → Prop
  | newline (rest : List UInt8) : Trailer (0x0A :: rest) (0x0A :: rest)
  | carriageReturn {tail} (ends : LineEnd tail) : Trailer (0x0D :: tail) tail
  | comment {bytes tail} (ends : LineEnd tail) (free : 0x0A ∉ bytes) :
    Trailer (0x23 :: (bytes ++ tail)) tail

namespace Trailer

variable {more tail : List UInt8}

/-- A line ends behind its trailer. -/
theorem lineEnd (h : Trailer more tail) : LineEnd tail := by
  cases h with
  | newline rest => exact .newline rest
  | carriageReturn ends => exact ends
  | comment ends free => exact ends

/-- Between the words and the end of the line there is no newline. -/
theorem split (h : Trailer more tail) : ∃ between, more = between ++ tail ∧ 0x0A ∉ between := by
  cases h with
  | newline rest => exact ⟨[], rfl, by simp⟩
  | carriageReturn ends => exact ⟨[0x0D], rfl, by simp⟩
  | @comment bytes tail ends free => exact ⟨0x23 :: bytes, rfl, by simpa using free⟩

/-- A trailer begins with a character that no word goes on with. -/
theorem next (h : Trailer more tail) :
    ∃ x bytes, more = String.utf8EncodeChar x ++ bytes ∧
      (x = '\n' ∨ x = '\r' ∨ x = '#' ∧ more.head? = some 0x23) := by
  have hnewline : String.utf8EncodeChar '\n' = [0x0A] := rfl
  have hreturn : String.utf8EncodeChar '\r' = [0x0D] := rfl
  have hhash : String.utf8EncodeChar '#' = [0x23] := rfl
  cases h with
  | newline rest => exact ⟨'\n', rest, by simp [hnewline], .inl rfl⟩
  | carriageReturn ends => exact ⟨'\r', tail, by simp [hreturn], .inr (.inl rfl)⟩
  | @comment bytes tail ends free =>
    exact ⟨'#', bytes ++ tail, by simp [hhash], .inr (.inr ⟨rfl, rfl⟩)⟩

/-- No name goes on into a trailer. -/
theorem stopsNames (h : Trailer more tail) : StopsNames more := by
  obtain ⟨x, bytes, hx, hcases⟩ := h.next
  refine ⟨x, bytes, hx, ?_⟩
  rcases hcases with rfl | rfl | ⟨rfl, -⟩ <;> decide

/-- A trailer has the end of a line in it, or more. -/
theorem ne_nil (h : Trailer more tail) : more ≠ [] := by
  cases h <;> simp

end Trailer

namespace Lexer

variable {escape : EscapeSet} {commandOpen : Bool} {es : List Element}

/-! ## The end of a word -/

/-- A newline separates whatever is chosen. -/
theorem role_newline (escape : EscapeSet) : role escape '\n' = .separator .newline := by
  have hsafe : isShellSafe '\n' = false := by decide
  unfold role EscapeSet.separator?
  rw [if_neg (by rw [hsafe]; decide)]
  cases escape.contains '\n' <;> rfl

/-- A carriage return that is not chosen is a blank. -/
theorem role_return (h : escape.contains '\r' = false) : role escape '\r' = .blank :=
  (role_eq_of_not_contains h).trans (by decide)

/-- A hash sign that is not chosen begins a comment. -/
theorem role_hash (h : escape.contains '#' = false) : role escape '#' = .comment :=
  (role_eq_of_not_contains h).trans (by decide)

/-- What the end of a line makes of a word of these elements: the word ends before the line does, or the
newline ends both. -/
inductive Closes (label : String) (es : List Element) (tail : List UInt8) :
    Read Cursor (Option Token) → Prop
  | word {l} (rest : l.input.rest = tail) (filename : l.filename = label)
    (known : es = [] → tail = []) : Closes label es tail (.ok (Token.ofElements? es), l)
  | newline {l} (rest : tail = 0x0A :: l.input.rest) (filename : l.filename = label) :
    Closes label es tail (.ok (some ⟨es ++ [.separator .newline]⟩), l)

variable {l l₁ : Lexer Cursor} {g : Gathering} {more tail : List UInt8}

/-- At the end of a line. -/
theorem closes_of_lineEnd (escape : EscapeSet) (commandOpen : Bool) (g : Gathering)
    (hend : LineEnd tail) (h : l.input.rest = tail) :
    Closes l.filename (g.settle l.filename) tail
      (iterate (wordStep escape commandOpen) size_wordStep_lt g l) := by
  rw [iterate_eq]
  cases hend with
  | last =>
    obtain ⟨l', hn, htakes⟩ := nextRune_takes_none h
    simp only [wordStep, hn]
    exact .word (htakes.rest_eq h) htakes.filename fun _ => rfl
  | newline rest =>
    have hencoded : l.input.rest = String.utf8EncodeChar '\n' ++ rest := h
    obtain ⟨l', hn, htakes, -⟩ := nextRune_takes hencoded
    have hrest := htakes.rest_eq hencoded
    unfold wordStep wordRune
    simp only [hn, role_newline, htakes.filename]
    exact .newline (by rw [hrest]) htakes.filename

/-- A comment ends a word, and hides nothing but itself where there is none. -/
theorem closes_of_comment (commandOpen : Bool) (g : Gathering) {c : Char} {bytes : List UInt8}
    (hn : l.nextRune = (.ok (some c), l₁)) (hlabel : l₁.filename = l.filename)
    (hc : role escape c = .comment) (hend : LineEnd tail) (hfree : 0x0A ∉ bytes)
    (h : l₁.input.rest = bytes ++ tail) :
    Closes l.filename (g.settle l.filename) tail
      (iterate (wordStep escape commandOpen) size_wordStep_lt g l) := by
  have hhead : ∀ b ∈ tail.head?, b = 0x0A := by
    cases hend with
    | last => simp
    | newline rest => simp
  obtain ⟨l₂, hs, htakes⟩ := skipToNewline_bytes tail hfree hhead h
  have hrest := htakes.rest_eq h
  have hlabel₂ : l₂.filename = l.filename := htakes.filename.trans hlabel
  rw [iterate_eq]
  unfold wordStep wordRune
  simp only [hn, hc, skipComment_of_skipToNewline hs, hlabel]
  -- behind a comment on an empty word, the newline is the first of the next token
  by_cases hes : g.settle l.filename = []
  · rw [hes]
    cases hend with
    | last => exact .word hrest hlabel₂ fun _ => rfl
    | newline rest =>
      have hclosed := closes_of_lineEnd escape commandOpen {}
        (l := l₂.note (.comment l₁.position.line false)) (.newline rest) hrest
      exact hlabel₂ ▸ hclosed
  · have hempty : (g.settle l.filename).isEmpty = false := by simpa using hes
    simp only [hempty, Bool.and_false, Bool.false_eq_true, if_false]
    exact .word hrest hlabel₂ fun h => (hes h).elim

/-- At the trailer of a line. -/
theorem closes_of_trailer (commandOpen : Bool) (g : Gathering)
    (hescape : ∀ c ∈ ['\r', '#'], escape.contains c = false) (htrailer : Trailer more tail)
    (h : l.input.rest = more) :
    Closes l.filename (g.settle l.filename) tail
      (iterate (wordStep escape commandOpen) size_wordStep_lt g l) := by
  cases htrailer with
  | newline rest => exact closes_of_lineEnd escape commandOpen g (.newline rest) h
  -- a carriage return is a blank: it closes an open word, and else the rest of the trailer decides
  | carriageReturn ends =>
    have hencoded : l.input.rest = String.utf8EncodeChar '\r' ++ tail := h
    obtain ⟨l₁, hn, htakes, -⟩ := nextRune_takes hencoded
    have hrest := htakes.rest_eq hencoded
    rw [iterate_eq]
    unfold wordStep wordRune
    simp only [hn, role_return (hescape '\r' (by simp)), htakes.filename]
    by_cases hes : g.settle l.filename = []
    · rw [hes]
      have hclosed := closes_of_lineEnd escape commandOpen {}
        (l := { l₁ with tokenStart := l₁.position }) ends hrest
      exact htakes.filename ▸ hclosed
    · have hempty : (g.settle l.filename).isEmpty = false := by simpa using hes
      simp only [hempty, Bool.false_eq_true, if_false, ← Token.ofElements?_of_ne_nil hes]
      exact .word hrest htakes.filename fun h => (hes h).elim
  | @comment bytes _ ends free =>
    have hencoded : l.input.rest = String.utf8EncodeChar '#' ++ (bytes ++ tail) := h
    obtain ⟨l₁, hn, htakes, -⟩ := nextRune_takes hencoded
    exact closes_of_comment commandOpen g hn htakes.filename (role_hash (hescape '#' (by simp))) ends free
      (htakes.rest_eq hencoded)

end Lexer

namespace Correspondence

open Lexer

/-! ## The shorter text and the longer one -/

variable {label : String} {text : List Char} {more tail : List UInt8} {escape : EscapeSet}
variable {commandOpen : Bool} {l l' l₁ m m₁ : Lexer Cursor} {g : Gathering}
variable {p : Progress Gathering (Option Token)}

/-- A dollar sign at the end of the shorter text is a bare one in the longer text, unless a comment
follows it. -/
theorem Sim.readDollar_line (htrailer : Trailer more tail) (hhash : more.head? ≠ some 0x23)
    (h : (lengthened label text more).Sim l m) (hn : l.nextRune = (.ok none, l₁)) (dollar : Position) :
    ∃ m', m.readDollar dollar = (.ok .bare, m') ∧ (lengthened label text more).Sim l₁ m' := by
  obtain ⟨x, bytes, hx, hcases⟩ := htrailer.next
  obtain ⟨-, m₁, hn', sim⟩ := h.nextRune_of_none hx hn
  refine ⟨m₁.unreadRune, ?_, sim⟩
  unfold Lexer.readDollar
  rcases hcases with rfl | rfl | ⟨rfl, hhead⟩
  · simp [hn', Lexer.readExpansion, isNameStart, isSpecialParameter]
  · simp [hn', Lexer.readExpansion, isNameStart, isSpecialParameter]
  · exact (hhash hhead).elim

/-- A dollar sign outside quotes at the end of the shorter text. -/
theorem Sim.dollar_line (hescape : ∀ c ∈ ['\r', '#'], escape.contains c = false)
    (htrailer : Trailer more tail) (hhash : more.head? ≠ some 0x23) (hend : l₁.input.rest = [])
    {c : Char} (hrole : role escape c = .dollar) (h : (lengthened label text more).Sim l m)
    (hn : l.nextRune = (.ok (some c), l₁)) (hg : AllReadable g.elements)
    (hl : Lexer.wordStep escape commandOpen g l = (.ok p, l')) :
    StepResumed label text more (Closes label · tail) escape commandOpen g m p l' := by
  obtain ⟨m₁, hn', sim⟩ := h.nextRune_of_some hn
  obtain ⟨l₂, hn₂, htakes⟩ := nextRune_takes_none hend
  obtain ⟨m₂, hd, sim'⟩ := sim.readDollar_line htrailer hhash hn₂ l.position
  have hrest : l₂.input.rest = [] := htakes.rest_eq hend
  have hlabel : l₁.filename = label := sim.label
  have hposition : m.position = l.position := h.position
  simp only [Lexer.wordStep, hn] at hl
  unfold Lexer.wordRune Lexer.readDollar at hl
  simp only [hrole, hn₂, hlabel] at hl
  cases hl
  -- the longer text gathers the dollar sign as text, which its trailer then closes
  let g' := Gathering.push { elements := g.settle label } '$' l.position
  have hsettle (filename : String) : g'.settle filename =
      g.settle label ++ [.literal ⟨"$", ⟨filename, l.position⟩⟩] := by
    simp [g', Gathering.settle, Gathering.push, Draft.push]
  have hm : Lexer.wordStep escape commandOpen g m = (.ok (.more g'), m₂) := by
    simp only [Lexer.wordStep, hn', hposition]
    unfold Lexer.wordRune
    simp only [hrole, hd, sim.filename, hlabel]
    rfl
  have hmore : m₂.input.rest = more := by
    rw [sim'.input.rest, hrest, List.nil_append]
  have hclosed := closes_of_trailer commandOpen g' hescape htrailer hmore
  rw [hsettle, sim'.filename.trans sim'.label] at hclosed
  have hreadable := (hg.settle label).append
    (.singleton (e := .literal ⟨"$", ⟨label, l.position⟩⟩) trivial)
  have hresumed : Resumed label text more (Closes label · tail) _ _ _ := .closed hreadable hrest hclosed
  rw [Token.ofElements?_of_ne_nil (by simp)] at hresumed
  unfold StepResumed
  rw [iterate_eq, hm, place, hlabel]
  exact hresumed

/-- A comment. It goes to the end of the shorter text, in which there is no newline. -/
theorem Sim.comment_line (htrailer : Trailer more tail) (hfree : 0x0A ∉ l₁.input.rest) {c : Char}
    (hrole : role escape c = .comment) (h : (lengthened label text more).Sim l m)
    (hn : l.nextRune = (.ok (some c), l₁)) (hg : AllReadable g.elements)
    (hl : Lexer.wordStep escape commandOpen g l = (.ok p, l')) :
    StepResumed label text more (Closes label · tail) escape commandOpen g m p l' := by
  obtain ⟨m₁, hn', sim⟩ := h.nextRune_of_some hn
  obtain ⟨l₂, hs, htakes⟩ := skipToNewline_bytes [] hfree (by simp) (List.append_nil _).symm
  have hrest : l₂.input.rest = [] := htakes.rest_eq (List.append_nil _).symm
  simp only [Lexer.wordStep, hn] at hl
  unfold Lexer.wordRune at hl
  simp only [hrole, skipComment_of_skipToNewline hs] at hl
  cases hl
  -- in the longer text the comment goes on to the end of the line
  obtain ⟨between, hmore, hbetween⟩ := htrailer.split
  have hm₁ : m₁.input.rest = l₁.input.rest ++ between ++ tail := by
    rw [sim.input.rest, hmore, List.append_assoc]
  have hclosed := closes_of_comment commandOpen g hn'
    (sim.filename.trans (sim.label.trans (h.filename.trans h.label).symm)) hrole htrailer.lineEnd
    (by simp [hfree, hbetween]) hm₁
  rw [h.filename.trans h.label] at hclosed
  have hreadable := hg.settle label
  rw [sim.label]
  exact .closed hreadable hrest hclosed

/-- A step within a token. -/
theorem Sim.wordStep_line (hescape : ∀ c ∈ ['\r', '#'], escape.contains c = false)
    (htrailer : Trailer more tail) (hnewline : '\n' ∉ text)
    (hdollar : more.head? = some 0x23 → text.getLast? ≠ some '$')
    (h : (lengthened label text more).Sim l m) (hstands : Stands label text l)
    (hg : AllReadable g.elements) (hl : Lexer.wordStep escape commandOpen g l = (.ok p, l')) :
    StepResumed label text more (Closes label · tail) escape commandOpen g m p l' := by
  generalize hr : l.nextRune = r
  obtain ⟨_ | _ | c, l₁⟩ := r
  · simp only [Lexer.wordStep, hr] at hl
    cases hl
  -- the shorter text ends here, and the longer one has its trailer
  · simp only [Lexer.wordStep, hr] at hl
    cases hl
    obtain ⟨x, bytes, hx, -⟩ := htrailer.next
    obtain ⟨hm, -⟩ := h.nextRune_of_none hx hr
    have hclosed := closes_of_trailer commandOpen g hescape htrailer hm
    rw [h.filename.trans h.label] at hclosed
    rw [h.label]
    exact .closed (hg.settle label) (rest_of_nextRune hr) hclosed
  obtain ⟨u, y, htext, hy⟩ := hstands.point_of_nextRune hr
  by_cases hcomment : role escape c = .comment
  · refine h.comment_line htrailer (fun hmem => ?_) hcomment hr hg hl
    rw [hy] at hmem
    have hy := Utf8.mem_of_ascii_mem (d := '\n') (by decide) hmem
    exact hnewline (by simp [htext, hy])
  -- a dollar sign at the end is the one character that looks at what the trailer begins with
  by_cases hlast : role escape c = .dollar ∧ l₁.input.rest = []
  · obtain ⟨hrole, hrest⟩ := hlast
    rw [hrest] at hy
    rw [Utf8.encodeChars_eq_nil.mp hy.symm, eq_of_role hrole] at htext
    have hhash : more.head? ≠ some 0x23 := fun hhash => hdollar hhash (by simp [htext])
    exact h.dollar_line hescape htrailer hhash hrest hrole hr hg hl
  · exact h.wordStep_more htrailer.stopsNames hr (fun hrole hrest => hlast ⟨hrole, hrest⟩) hcomment hl

/-- A token. -/
theorem Sim.readToken_line (hescape : ∀ c ∈ ['\r', '#'], escape.contains c = false)
    (htrailer : Trailer more tail) (hnewline : '\n' ∉ text)
    (hdollar : more.head? = some 0x23 → text.getLast? ≠ some '$')
    (h : (lengthened label text more).Sim l m) (hstands : Stands label text l) {t : Option Token}
    (hl : l.readToken escape commandOpen = (.ok t, l')) :
    Resumed label text more (Closes label · tail) t l' (m.readToken escape commandOpen) :=
  h.readToken_resumed (fun sim hstands => sim.wordStep_line hescape htrailer hnewline hdollar hstands)
    hstands hl

end Correspondence

end ShellScript
