import ShellScript.Proofs.Calls
import ShellScript.Proofs.Nested

/-!
# Where the caret of a diagnostic stands

A diagnostic ends in the line that an error is on, behind a gutter with the number of the line, and a caret
below it. The line is the right one, and the caret is moved by the characters in front of the error. But the
number takes at least three columns, and the gutter of the caret has room for two: the caret stands to the
left of the error, by one column up to line 999 and by one more for each further digit
(`Parser.showsCaret_of_raises`).
-/

namespace ShellScript

namespace Excerpt

/-! ## The line around a point -/

/-- What stands behind the last newline of a text. -/
def lastLine (text : List Char) : List Char :=
  (text.reverse.takeWhile (· ≠ '\n')).reverse

/-- The line of a text around a point, without its newline and a carriage return in front of that. -/
def lineAround (before after : List Char) : List Char :=
  stripReturn (lastLine before ++ after.takeWhile (· ≠ '\n'))

/-- A text without newlines is taken as a whole. -/
theorem takeWhile_append_of_not_mem {line : List Char} (h : '\n' ∉ line) (rest : List Char) :
    (line ++ rest).takeWhile (· ≠ '\n') = line ++ rest.takeWhile (· ≠ '\n') :=
  List.takeWhile_append_of_pos fun _ hc => decide_eq_true fun heq => h (heq ▸ hc)

/-- What stands behind a newline is the last line if it has no other one. -/
theorem lastLine_append_newline (text : List Char) {line : List Char} (h : '\n' ∉ line) :
    lastLine (text ++ '\n' :: line) = line := by
  rw [lastLine, List.reverse_append, List.reverse_cons, List.append_assoc,
    takeWhile_append_of_not_mem (mt List.mem_reverse.mp h)]
  simp

/-- A line is its own last line. -/
theorem lastLine_of_not_mem {line : List Char} (h : '\n' ∉ line) : lastLine line = line := by
  have hline := takeWhile_append_of_not_mem (mt List.mem_reverse.mp h) []
  simpa [lastLine] using congrArg List.reverse hline

/-- There is no newline behind the last one. -/
theorem newline_not_mem_lastLine (text : List Char) : '\n' ∉ lastLine text := by
  intro h
  have := List.mem_takeWhile_imp (List.mem_reverse.mp h)
  simp at this

/-- Every text is its last line, or has lines in front of it. -/
theorem eq_lastLine_or (text : List Char) :
    lastLine text = text ∨ ∃ front, text = front ++ '\n' :: lastLine text := by
  by_cases h : '\n' ∈ text
  · obtain ⟨line, front, hreverse, hline⟩ := List.eq_append_cons_of_mem (List.mem_reverse.mpr h)
    have htext : text = front.reverse ++ '\n' :: line.reverse := by
      rw [← List.reverse_reverse text, hreverse]
      simp
    refine .inr ⟨front.reverse, ?_⟩
    rw [htext, lastLine_append_newline _ (by simpa using hline)]
  · exact .inl (lastLine_of_not_mem h)

/-- In front of a newline there is one line more to count. -/
theorem nthLine_append_newline (front text : List Char) (n : Nat) :
    nthLine (front ++ '\n' :: text) (front.count '\n' + 1 + n) = nthLine text n := by
  induction front generalizing n with
  | nil => simp [Nat.add_comm 1 n, nthLine]
  | cons c front ih =>
    by_cases hc : c = '\n'
    · subst hc
      rw [List.count_cons_self, List.cons_append, show front.count '\n' + 1 + 1 + n =
        (front.count '\n' + 1 + n) + 1 by omega]
      simp only [nthLine, List.dropWhile_cons, ne_eq, not_true, decide_false]
      exact ih n
    · rw [List.count_cons_of_ne hc, ← ih n, List.cons_append,
        show front.count '\n' + 1 + n = (front.count '\n' + n) + 1 by omega]
      simp [nthLine, hc]

/-- The line with as many newlines before it as a point has is the line around the point. -/
theorem nthLine_count (before after : List Char) :
    nthLine (before ++ after) (before.count '\n') = lastLine before ++ after.takeWhile (· ≠ '\n') := by
  have hlast {line : List Char} (h : '\n' ∉ line) :
      nthLine (line ++ after) 0 = line ++ after.takeWhile (· ≠ '\n') :=
    takeWhile_append_of_not_mem h after
  have hnone := newline_not_mem_lastLine before
  rcases eq_lastLine_or before with h | ⟨front, h⟩
  · rw [h] at hnone ⊢
    rw [List.count_eq_zero.mpr hnone, hlast hnone]
  · generalize lastLine before = line at h hnone ⊢
    subst h
    have hcount : (front ++ '\n' :: line).count '\n' = front.count '\n' + 1 + 0 := by
      rw [List.count_append, List.count_cons_self, List.count_eq_zero.mpr hnone]
    rw [hcount, List.append_assoc, List.cons_append, nthLine_append_newline, hlast hnone]

/-! ## What a diagnostic shows -/

/-- Whether a message ends in the line around a point, behind a gutter, and in a caret below the point; or
the caret stands as many characters to the left of it. -/
def ShowsCaret (message before after : List Char) (lag : Nat) : Prop :=
  ∃ head gutter margin,
    message = head ++ '\n' :: (gutter ++ lineAround before after) ++ '\n' :: (margin ++ ['^']) ∧
    '\n' ∉ gutter ∧ '\n' ∉ margin ∧ margin.length + lag = gutter.length + (lastLine before).length

/-- The line around a point is one line. -/
theorem newline_not_mem_lineAround (before after : List Char) : '\n' ∉ lineAround before after := by
  have hline : '\n' ∉ lastLine before ++ after.takeWhile (· ≠ '\n') := by
    rw [List.mem_append]
    rintro (h | h)
    · exact newline_not_mem_lastLine before h
    · simpa using List.mem_takeWhile_imp h
  unfold lineAround stripReturn
  split
  · exact fun h => hline (List.dropLast_subset _ h)
  · exact hline

/-- A message shows a point in one way only. -/
theorem ShowsCaret.unique {message before after : List Char} {lag lag' : Nat}
    (h : ShowsCaret message before after lag) (h' : ShowsCaret message before after lag') : lag = lag' := by
  obtain ⟨head, gutter, margin, rfl, hgutter, hmargin, hlength⟩ := h
  obtain ⟨head', gutter', margin', hmessage, hgutter', hmargin', hlength'⟩ := h'
  have hline := newline_not_mem_lineAround before after
  -- the last lines are the same, and then those above them are
  have hcaret := congrArg lastLine hmessage
  rw [lastLine_append_newline _ (by simpa using hmargin),
    lastLine_append_newline _ (by simpa using hmargin')] at hcaret
  rw [hcaret] at hmessage
  have habove := congrArg lastLine (List.append_cancel_right hmessage)
  rw [lastLine_append_newline _ (by simp [hgutter, hline]),
    lastLine_append_newline _ (by simp [hgutter', hline])] at habove
  rw [List.append_cancel_right hcaret] at hlength
  rw [List.append_cancel_right habove] at hlength
  omega

/-- How far the caret stands to the left on a line: the number has as many columns more than two. -/
def caretLag (line : Nat) : Nat :=
  max 3 (toString line).length - 2

/-- A line number takes three columns, or as many as it needs. -/
theorem length_lineNumber (n : Nat) : (lineNumber n).length = max 3 (toString n).length := by
  rw [lineNumber, String.length_append, String.length_ofList, List.length_replicate]
  omega

/-- A line number is on one line. -/
theorem newline_not_mem_lineNumber (n : Nat) : '\n' ∉ (lineNumber n).toList := by
  rw [lineNumber, String.toList_append, String.toList_ofList, List.mem_append]
  rintro (h | h)
  · simpa using List.eq_of_mem_replicate h
  · have hdigits : (toString n).toList = Nat.toDigits 10 n := Nat.toList_repr
    rw [hdigits] at h
    exact absurd (Nat.isDigit_of_mem_toDigits (by decide) (by decide) h) (by decide)

/-- A diagnostic for a point of a text shows the line around it, and the caret too far to the left. -/
theorem showsCaret_diagnostic {text : String} {before after : List Char}
    (htext : text.toList = before ++ after) (message : String) :
    ShowsCaret (diagnostic text (.behind before) message).toList before after
      (caretLag (Position.behind before).line) := by
  let line := (Position.behind before).line
  have hcontent : (lineContent text line).toList = lineAround before after := by
    have hline : line - 1 = before.count '\n' := Nat.add_sub_cancel_left ..
    rw [lineContent, htext, hline, nthLine_count, String.toList_ofList]
    rfl
  -- above the line, its number and bar, and below it the bar and the blanks in front of the caret
  refine ⟨s!"error: {message}\n  --> line {line}, column {(Position.behind before).column}\n   |".toList,
    (lineNumber line ++ " | ").toList,
    "   | ".toList ++ List.replicate ((Position.behind before).column - 1) ' ', ?_, ?_, ?_, ?_⟩
  · rw [← hcontent]
    unfold diagnostic
    simp only [caret, line, String.toList_append, String.toList_ofList, toString]
    simp
  · rw [String.toList_append, List.mem_append]
    rintro (h | h)
    · exact newline_not_mem_lineNumber line h
    · exact absurd h (by decide)
  · rw [List.mem_append]
    rintro (h | h)
    · exact absurd h (by decide)
    · simpa using List.eq_of_mem_replicate h
  · -- the caret has five columns and its own in front, the point the gutter of the number and as many
    have hcolumn : (Position.behind before).column - 1 = (lastLine before).length := by
      simp [Position.behind, lastLine]
    have hnumber : (lineNumber line).length = max 3 (toString line).length := length_lineNumber line
    change _ + (max 3 (toString line).length - 2) = _
    simp only [List.length_append, List.length_replicate, String.length_toList, String.length_append,
      hcolumn, hnumber]
    have hgutter : " | ".length = 3 := rfl
    have hmargin : "   | ".length = 5 := rfl
    omega

end Excerpt

/-! ## The errors of a text -/

namespace Parser

/-- Whether calls can be made the last of which fails with an error. -/
def Raises {σ : Type} [Input σ] (p : Parser σ) (e : ParseError) : Prop :=
  ∃ calls, ∃ r ∈ (p.serve calls).1, r.answer = .error e

section

variable {σ : Type} [Input σ] {e : ParseError}

/-- An iteration only makes calls. -/
theorem raises_of_items {p : Parser σ} (h : .error e ∈ p.items.1) : p.Raises e := by
  fun_induction items p with
  | case1 p p₁ hnext => cases h
  | case2 p e' p₁ hnext =>
    cases List.mem_singleton.mp h
    exact ⟨[.next], ⟨.next, .error e⟩, by simp [serve, call, hnext], rfl⟩
  | case3 p c p₁ hnext rest p₂ hrest ih =>
    have hlater : .error e ∈ p₁.items.1 := by
      rw [hrest]
      simpa using h
    obtain ⟨calls, r, hr, hanswer⟩ := ih hlater
    exact ⟨.next :: calls, r, by simp [serve, call, hnext, hr], hanswer⟩

/-- An error that ends the collection of all commands is raised. -/
theorem raises_of_collect {p : Parser σ} (h : p.collect.1 = .error e) : p.Raises e :=
  raises_of_items (mem_of_mapM_id_eq_error h)

end

variable {label : String} {escape : EscapeSet} {e : ParseError}

/-- A reader raises the errors that the same bytes in memory do. -/
theorem raises_ofBytes {bytes : List UInt8} :
    (ofBytes bytes label escape).Raises e ↔ (ofCursor bytes label escape).Raises e := by
  have hserve := (Correspondence.exact_ofReader label).serve_commands
    (Correspondence.parsers_ofBytes bytes label escape)
  simp only [Raises, hserve]

/-- The error that a text is rejected with is one that its parser fails with. -/
theorem raises_of_parseString {text : String} (h : parseString text label = .error e) :
    (ofBytes (Utf8.encode text) label .default).Raises e :=
  raises_ofBytes.mpr (raises_of_collect h)

section

variable {text : List Char} {p : Parser Cursor}

/-- After a command the parser is between two characters again, also if it has failed with an error, which is
then placed. -/
theorem stands_readCommandWith (h : p.lexer.Stands label text) (escape : EscapeSet) :
    (p.readCommandWith escape).2.lexer.Stands label text ∧
      ∀ e, (p.readCommandWith escape).1 = .error e → ∀ l ∈ e.location?, Placed label text l := by
  have hread := h.readCommand escape
  unfold readCommandWith
  generalize p.lexer.readCommand escape = r at hread ⊢
  cases hread with
  | error placed stands => exact ⟨stands, fun e he => by cases he; exact placed⟩
  | ok value => exact ⟨value.1, nofun⟩

/-- Whatever a parser answers, it is between two characters of the text then, and an error is placed there. -/
theorem stands_call (h : p.lexer.Stands label text) (c : Call) :
    (p.call c).2.lexer.Stands label text ∧
      ∀ e, (p.call c).1 = .error e → ∀ l ∈ e.location?, Placed label text l := by
  cases c with
  | next =>
    cases hfailed : p.failed with
    | true =>
      rw [call_next_of_failed hfailed]
      exact ⟨h, nofun⟩
    | false =>
      rw [call_next_of_not_failed hfailed]
      exact stands_readCommandWith h p.escape
  | read => exact stands_readCommandWith h p.escape
  | readWith escape => exact stands_readCommandWith h escape

/-- Every error that calls end in is placed. -/
theorem placed_of_serve (h : p.lexer.Stands label text) {calls : List Call} {r : Reply}
    (hr : r ∈ (p.serve calls).1) (he : r.answer = .error e) : ∀ l ∈ e.location?, Placed label text l := by
  induction calls generalizing p with
  | nil => cases hr
  | cons c calls ih =>
    obtain ⟨hstands, hplaced⟩ := stands_call h c
    rcases List.mem_cons.mp hr with rfl | hr
    · exact hplaced e he
    · exact ih hstands hr

end

/-- Every error of a text is placed behind some beginning of it. -/
theorem exists_behind_of_raises {text : String} {l : Location}
    (h : (ofBytes (Utf8.encode text) label escape).Raises e) (hl : e.location? = some l) :
    ∃ before after, text.toList = before ++ after ∧ l = ⟨label, .behind before⟩ := by
  obtain ⟨calls, r, hr, he⟩ := raises_ofBytes.mp h
  have hstart : (ofCursor (Utf8.encode text) label escape).lexer.Stands label text.toList :=
    ⟨rfl, ⟨[], text.toList, rfl, rfl, rfl⟩, ⟨[], text.toList, rfl, rfl⟩⟩
  obtain ⟨hlabel, before, after, htext, hposition⟩ := placed_of_serve hstart hr he l hl
  exact ⟨before, after, htext, by rw [← hlabel, ← hposition]⟩

open Excerpt

/-- The diagnostic of every error that a text has ends in the line of the error, and in a caret that stands
to the left of the error: by the columns that the number of the line takes beyond two. -/
theorem showsCaret_of_raises {text label : String} {escape : EscapeSet} {e : ParseError} {l : Location}
    (h : (ofBytes (Utf8.encode text) label escape).Raises e) (hl : e.location? = some l) :
    ∃ before after message, text.toList = before ++ after ∧ l = ⟨label, .behind before⟩ ∧
      e.diagnostic? text = some message ∧
      ∀ lag, ShowsCaret message.toList before after lag ↔ lag = max 3 (toString l.line).length - 2 := by
  obtain ⟨before, after, htext, rfl⟩ := exists_behind_of_raises h hl
  have hshown := showsCaret_diagnostic htext e.message
  refine ⟨before, after, diagnostic text (.behind before) e.message, htext, rfl, ?_, fun lag => ?_⟩
  · rw [ParseError.diagnostic?, hl]
    rfl
  · exact ⟨fun h => h.unique hshown, fun h => h ▸ hshown⟩

/-- In `é`, a newline and `b | c`, the error is behind the three characters `b |` of its line, and the caret
stands below the third one. -/
theorem showsCaret_of_raises_pipe :
    let e : ParseError := .unsupported "pipelines" ⟨"s", ⟨6, 2, 4⟩⟩
    (ofBytes (Utf8.encode "é\nb | c") "s" .default).Raises e ∧ e.location? = some ⟨"s", ⟨6, 2, 4⟩⟩ ∧
    ∃ before after message, "é\nb | c".toList = before ++ after ∧
      (⟨"s", ⟨6, 2, 4⟩⟩ : Location) = ⟨"s", .behind before⟩ ∧
      e.diagnostic? "é\nb | c" = some message ∧ ∀ lag, ShowsCaret message.toList before after lag ↔ lag = 1 := by
  intro e
  have hraises : (ofBytes (Utf8.encode "é\nb | c") "s" .default).Raises e :=
    raises_of_parseString (by decide +kernel)
  exact ⟨hraises, rfl, showsCaret_of_raises hraises rfl⟩

/-- The caret is not below the quote that is not closed in `echo 'foo`. -/
theorem not_showsCaret_quote :
    ¬∀ (text message : String) (e : ParseError) (before after : List Char),
      (ofBytes (Utf8.encode text) "s" .default).Raises e → text.toList = before ++ after →
      e.location? = some ⟨"s", .behind before⟩ → e.diagnostic? text = some message →
      ShowsCaret message.toList before after 0 := by
  intro h
  let e : ParseError := .unterminatedQuote .single ⟨"s", .behind "echo ".toList⟩
  have hraises : (ofBytes (Utf8.encode "echo 'foo") "s" .default).Raises e :=
    raises_of_parseString (by decide +kernel)
  have htext : "echo 'foo".toList = "echo ".toList ++ "'foo".toList := rfl
  have hshown := showsCaret_diagnostic htext e.message
  exact absurd ((h _ _ e _ _ hraises rfl rfl rfl).unique hshown) (by decide)

end Parser

end ShellScript
