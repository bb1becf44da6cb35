import ShellScript.Proofs.Positions
import ShellScript.Proofs.Steps

/-!
# Reading encoded text

What a lexer reads where the bytes before it are those of known characters: characters, the inside of raw
quotes, and the bodies of brackets. A body can be read back if its brackets enclose it.
-/

namespace ShellScript

namespace Utf8

/-- The bytes of whole characters leave no sequence open. -/
theorem complete_encodeChars (cs : List Char) : Complete (encodeChars cs) := by
  rcases List.eq_nil_or_concat cs with rfl | ⟨ds, c, rfl⟩
  · intro a rest h
    exact absurd (List.eq_nil_of_suffix_nil h) (List.cons_ne_nil a rest)
  · have hc := next?_utf8EncodeChar c []
    rw [List.append_nil] at hc
    rw [List.concat_eq_append, encodeChars_append]
    simpa using complete_append hc (encodeChars ds)

end Utf8

namespace Lexer

/-- What is known of a lexer that has taken some bytes, within the same token. -/
structure Takes (l : Lexer Cursor) (bytes : List UInt8) (l' : Lexer Cursor) : Prop where
  rest : l.input.rest = bytes ++ l'.input.rest
  position : l'.position = bytes.foldl Position.afterByte l.position
  filename : l'.filename = l.filename
  tokenStart : l'.tokenStart = l.tokenStart

namespace Takes

variable {l l₁ l₂ : Lexer Cursor} {bytes bytes' : List UInt8}

/-- What is taken one after the other is taken together. -/
theorem trans (h : l.Takes bytes l₁) (h' : l₁.Takes bytes' l₂) : l.Takes (bytes ++ bytes') l₂ where
  rest := by rw [h.rest, h'.rest, List.append_assoc]
  position := by rw [h'.position, h.position, List.foldl_append]
  filename := h'.filename.trans h.filename
  tokenStart := h'.tokenStart.trans h.tokenStart

/-- What follows the bytes that were taken is left. -/
theorem rest_eq (h : l.Takes bytes l₁) {rest : List UInt8} (hl : l.input.rest = bytes ++ rest) :
    l₁.input.rest = rest :=
  List.append_cancel_left (h.rest.symm.trans hl)

end Takes

variable {l : Lexer Cursor} {rest : List UInt8}

/-! ## Characters and bytes -/

/-- A character is read from its bytes, and can be put back. -/
theorem nextRune_takes {c : Char} (h : l.input.rest = String.utf8EncodeChar c ++ rest) :
    ∃ l', l.nextRune = (.ok (some c), l') ∧ l.Takes (String.utf8EncodeChar c) l' ∧
      l.Takes [] l'.unreadRune := by
  have hn := Utf8.next?_utf8EncodeChar c rest
  rw [← h] at hn
  cases hr : l.input.rest with
  | nil => simp [hr, Utf8.next?] at hn
  | cons lead tail =>
    have hrune : Utf8.nextRune lead tail = (c, (String.utf8EncodeChar c).length) := by
      rw [Utf8.nextRune, ← hr, hn]
      rfl
    refine ⟨_, by simp only [nextRune, Input.nextRune, Cursor.nextRune, hr, hrune, lift]; rfl, ?_, ?_⟩
    · refine ⟨?_, (Position.foldl_afterByte_utf8EncodeChar c l.position).symm, rfl, rfl⟩
      simp [← hr, h]
    · exact ⟨hr, rfl, rfl, rfl⟩

/-- The character that the input begins with is read, and can be put back. -/
theorem nextRune_encoded {c : Char} (h : l.input.rest = String.utf8EncodeChar c ++ rest) :
    ∃ l', l.nextRune = (.ok (some c), l') ∧ l'.input.rest = rest ∧
      l'.unreadRune.input.rest = l.input.rest := by
  obtain ⟨l', hn, htakes, hback⟩ := nextRune_takes h
  exact ⟨l', hn, htakes.rest_eq h, hback.rest.symm⟩

/-- At the end there is no character to take. -/
theorem nextRune_takes_none (h : l.input.rest = []) :
    ∃ l', l.nextRune = (.ok none, l') ∧ l.Takes [] l' := by
  refine ⟨_, by simp only [nextRune, Input.nextRune, Cursor.nextRune, h, lift]; rfl, ?_⟩
  exact ⟨h, rfl, rfl, rfl⟩

/-- At the end there is no character. -/
theorem nextRune_end (h : l.input.rest = []) :
    ∃ l', l.nextRune = (.ok none, l') ∧ l'.input.rest = [] := by
  obtain ⟨l', hn, htakes⟩ := nextRune_takes_none h
  exact ⟨l', hn, htakes.rest_eq h⟩

/-- The character that was read begins the text that was left. -/
theorem chars_of_nextRune {l₁ : Lexer Cursor} {c : Char} {x : List Char}
    (hx : l.input.rest = Utf8.encodeChars x) (h : l.nextRune = (.ok (some c), l₁)) :
    ∃ y, x = c :: y ∧ l₁.input.rest = Utf8.encodeChars y ∧
      l₁.unreadRune.input.rest = Utf8.encodeChars x := by
  cases x with
  | nil =>
    obtain ⟨l₂, hn, -⟩ := nextRune_end hx
    rw [h] at hn
    cases hn
  | cons d y =>
    obtain ⟨l₂, hn, hl₂, hback⟩ := nextRune_encoded hx
    rw [h] at hn
    cases hn
    exact ⟨y, rfl, hl₂, hback.trans hx⟩

/-- Where there is no character, nothing is left of the text. -/
theorem nil_of_nextRune {l₁ : Lexer Cursor} {x : List Char} (hx : l.input.rest = Utf8.encodeChars x)
    (h : l.nextRune = (.ok none, l₁)) : x = [] ∧ l₁.input.rest = [] := by
  cases x with
  | nil =>
    obtain ⟨l₂, hn, hl₂⟩ := nextRune_end hx
    rw [h] at hn
    cases hn
    exact ⟨rfl, hl₂⟩
  | cons d y =>
    obtain ⟨l₂, hn, -⟩ := nextRune_encoded hx
    rw [h] at hn
    cases hn

/-- The character that was read past a carriage return stands first or behind one. -/
theorem chars_of_nextPastReturn {l₁ : Lexer Cursor} {c : Char} {x : List Char}
    (hx : l.input.rest = Utf8.encodeChars x) (h : l.nextPastReturn = (.ok (some c), l₁)) :
    ∃ y, (x = c :: y ∧ c ≠ '\r' ∨ x = '\r' :: c :: y) ∧ l₁.input.rest = Utf8.encodeChars y := by
  unfold nextPastReturn at h
  split at h
  · rename_i hreturn
    obtain ⟨z, rfl, hz, -⟩ := chars_of_nextRune hx hreturn
    obtain ⟨y, rfl, hy, -⟩ := chars_of_nextRune hz h
    exact ⟨y, .inr rfl, hy⟩
  · rename_i hne
    obtain ⟨y, rfl, hy, -⟩ := chars_of_nextRune hx h
    refine ⟨y, .inl ⟨rfl, ?_⟩, hy⟩
    rintro rfl
    exact hne l₁ h

/-- The byte that the input begins with is read. -/
theorem nextByte_takes {b : UInt8} (h : l.input.rest = b :: rest) :
    ∃ l', l.nextByte = (.ok (some b), l') ∧ l.Takes [b] l' := by
  refine ⟨_, by simp only [nextByte, Input.nextByte, Cursor.nextByte, h, lift]; rfl, ?_⟩
  exact ⟨h, rfl, rfl, rfl⟩

/-! ## Raw quotes -/

/-- Raw quotes hold the bytes up to the closing quote. -/
theorem readRawQuote_bytes (quote : QuoteKind) (opening : Position) {bytes : List UInt8}
    (hbytes : 0x27 ∉ bytes) (h : l.input.rest = bytes ++ 0x27 :: rest) :
    ∃ l', l.readRawQuote quote opening = (.ok bytes, l') ∧ l.Takes (bytes ++ [0x27]) l' := by
  suffices hloop : ∀ taken, ∃ l', iterate (rawQuoteStep quote opening) size_rawQuoteStep_lt taken l =
      (.ok (taken.reverse ++ bytes), l') ∧ l.Takes (bytes ++ [0x27]) l' from hloop []
  induction bytes generalizing l with
  | nil =>
    intro taken
    obtain ⟨l', hn, hl'⟩ := nextByte_takes h
    exact ⟨l', by simp [iterate_eq, rawQuoteStep, hn], hl'⟩
  | cons b bytes ih =>
    intro taken
    obtain ⟨hb, hbytes⟩ : 0x27 ≠ b ∧ 0x27 ∉ bytes := by simpa using hbytes
    obtain ⟨l₁, hn, hl₁⟩ := nextByte_takes h
    obtain ⟨l', hl, hl'⟩ := ih hbytes (hl₁.rest_eq h) (b :: taken)
    refine ⟨l', ?_, hl₁.trans hl'⟩
    rw [iterate_eq]
    simp only [rawQuoteStep, hn, hb.symm, if_false, hl]
    simp

end Lexer

/-! ## Bodies -/

/-- Whether the closing bracket that follows a body is the first one that closes it. -/
def Brackets.Encloses (pair : Brackets) (body : List Char) : Prop :=
  ∃ n, body.foldlM (Nesting.feed pair) {} = some n ∧ n.feed pair pair.closing = none

namespace Lexer

variable {l : Lexer Cursor} {rest : List UInt8}

/-- A body is read up to the bracket that closes it. -/
theorem readBody_chars {pair : Brackets} (construct : String) {body : List Char}
    (hbody : pair.Encloses body)
    (h : l.input.rest = Utf8.encodeChars body ++ (String.utf8EncodeChar pair.closing ++ rest)) :
    ∃ l', l.readBody pair construct = (.ok (String.ofList body), l') ∧ l'.input.rest = rest := by
  obtain ⟨n, hfeed, hclose⟩ := hbody
  -- the same from any state of the loop, with the text that was read before
  suffices hloop : ∀ start text, body.foldlM (Nesting.feed pair) start = some n →
      ∃ l', iterate (bodyStep pair construct) size_bodyStep_lt (start, text) l =
        (.ok (text ++ String.ofList body), l') ∧ l'.input.rest = rest by
    simpa [readBody] using hloop {} "" hfeed
  clear hfeed
  induction body generalizing l with
  | nil =>
    intro start text hstart
    cases hstart
    obtain ⟨l', hn, hl', -⟩ := nextRune_encoded h
    exact ⟨l', by simp [iterate_eq, bodyStep, hn, hclose], hl'⟩
  | cons c body ih =>
    intro start text hstart
    rw [Utf8.encodeChars_cons, List.append_assoc] at h
    obtain ⟨l₁, hn, hl₁, -⟩ := nextRune_encoded h
    rw [List.foldlM_cons] at hstart
    obtain ⟨next, hnext, hrest⟩ := Option.bind_eq_some_iff.mp hstart
    obtain ⟨l', hl, hl'⟩ := ih hl₁ next (text.push c) hrest
    refine ⟨l', ?_, hl'⟩
    rw [iterate_eq]
    simp only [bodyStep, hn, hnext, hl]
    rw [String.push_eq_append, String.append_assoc, ← String.ofList_cons]

/-- Only the closing bracket closes a body. -/
theorem eq_closing_of_feed {pair : Brackets} {n : Nesting} {c : Char} (h : n.feed pair c = none) :
    c = pair.closing := by
  unfold Nesting.feed at h
  split at h
  · cases h
  · split at h
    · cases h
    · cases h
    · split at h
      · cases h
      split at h
      · cases h
      split at h
      · cases h
      split at h
      · cases h
      split at h
      · assumption
      · cases h

/-- A body that was read, and the bracket behind it, begin the text that was left. -/
theorem chars_of_readBody {pair : Brackets} {construct body : String} {l' : Lexer Cursor}
    {x : List Char} (hx : l.input.rest = Utf8.encodeChars x)
    (h : l.readBody pair construct = (.ok body, l')) :
    ∃ y, x = body.toList ++ pair.closing :: y ∧ l'.input.rest = Utf8.encodeChars y := by
  -- what was read before a step and what is left there are the text
  let P (state : Nesting × String) (l : Lexer Cursor) :=
    ∃ y, x = state.2.toList ++ y ∧ l.input.rest = Utf8.encodeChars y
  have hstep {state state' : Nesting × String} {l l' : Lexer Cursor} (hP : P state l)
      (hmore : bodyStep pair construct state l = (.ok (.more state'), l')) : P state' l' := by
    obtain ⟨y, rfl, hy⟩ := hP
    obtain ⟨c, hc, -, htext⟩ := bodyStep_more hmore
    obtain ⟨z, rfl, hz, -⟩ := chars_of_nextRune hy hc
    exact ⟨z, by simp [htext], hz⟩
  obtain ⟨state, l₁, ⟨y, rfl, hy⟩, hlast⟩ := iterate_ok (P := P) hstep ⟨x, rfl, hx⟩ h
  obtain ⟨c, hc, hfeed, rfl⟩ := bodyStep_done hlast
  obtain ⟨z, rfl, hz, -⟩ := chars_of_nextRune hy hc
  exact ⟨z, by rw [eq_closing_of_feed hfeed], hz⟩

section

variable {σ : Type} [Input σ] {pair : Brackets} {construct body : String} {l l₁ l' : Lexer σ}

/-- A body that was read is enclosed by its brackets. -/
theorem encloses_of_readBody (h : l.readBody pair construct = (.ok body, l')) :
    pair.Encloses body.toList := by
  let P (state : Nesting × String) (_ : Lexer σ) :=
    state.2.toList.foldlM (Nesting.feed pair) {} = some state.1
  have hstep {state state' : Nesting × String} {l l' : Lexer σ} (hP : P state l)
      (hmore : bodyStep pair construct state l = (.ok (.more state'), l')) : P state' l' := by
    obtain ⟨c, -, hfeed, htext⟩ := bodyStep_more hmore
    change state'.2.toList.foldlM (Nesting.feed pair) {} = some state'.1
    rw [htext, String.toList_push, List.foldlM_append, show _ = some state.1 from hP]
    simpa using hfeed
  obtain ⟨state, l₁, hP, hlast⟩ := iterate_ok (P := P) hstep rfl h
  obtain ⟨c, -, hfeed, rfl⟩ := bodyStep_done hlast
  exact ⟨state.1, hP, eq_closing_of_feed hfeed ▸ hfeed⟩

/-- A body that is not empty begins with the character that comes next. -/
theorem head?_of_readBody {c : Char} (hc : l.nextRune = (.ok (some c), l₁))
    (h : l.readBody pair construct = (.ok body, l')) :
    body.toList.head? = none ∨ body.toList.head? = some c := by
  -- once there is a first character, it stays
  let P (state : Nesting × String) (_ : Lexer σ) := state.2.toList.head? = some c
  have hstep {state state' : Nesting × String} {l l' : Lexer σ} (hP : P state l)
      (hmore : bodyStep pair construct state l = (.ok (.more state'), l')) : P state' l' := by
    obtain ⟨d, -, -, htext⟩ := bodyStep_more hmore
    change state'.2.toList.head? = some c
    rw [htext, String.toList_push, List.head?_append, show _ = some c from hP]
    rfl
  unfold readBody at h
  rw [iterate_eq] at h
  split at h
  · cases h
  · rename_i hdone
    cases h
    obtain ⟨-, -, -, rfl⟩ := bodyStep_done hdone
    exact .inl rfl
  · rename_i state l₂ hmore
    obtain ⟨d, hd, -, htext⟩ := bodyStep_more hmore
    have hdc : d = c := by
      rw [hc] at hd
      cases hd
      rfl
    obtain ⟨state', l₃, hP, hlast⟩ := iterate_ok (P := P) hstep (by simp [P, htext, hdc]) h
    obtain ⟨-, -, -, rfl⟩ := bodyStep_done hlast
    exact .inr hP

end

end Lexer

end ShellScript
