import ShellScript.Proofs.Diagnostics

/-!
# Where the caret of a snippet stands

A snippet shows a window around a point of a text and a caret on the row below it. The window is the right one
for every offset and every size (`Excerpt.Window`), also for offsets within a character or past the end. Where
sums are checked, though, there is no snippet of the largest size. And the caret is moved by all the characters
that are shown before the point, newlines counted like any other one: it stands below the character at the
point if and only if the window holds no newline (`Excerpt.snippet_shows`).
-/

namespace ShellScript

namespace Utf8

/-- Whether a byte offset lies between two characters of a text, or at one of its ends. -/
def IsBoundary (text : List Char) (offset : Nat) : Prop :=
  ∃ before after, text = before ++ after ∧ offset = (encodeChars before).length

/-- A character that the bytes begin with is the first of the text. -/
theorem strictChars?_cons {c : Char} {n : Nat} {bytes : List UInt8} (h : next? bytes = some (c, n)) :
    strictChars? bytes = (strictChars? (bytes.drop n)).map (c :: ·) := by
  cases bytes with
  | nil => simp [next?] at h
  | cons lead rest =>
    rw [strictChars?]
    split <;> simp_all

/-- Encoded text is always text. -/
theorem strictChars?_encodeChars (cs : List Char) : strictChars? (encodeChars cs) = some cs := by
  induction cs with
  | nil => rw [encodeChars_nil, strictChars?]
  | cons c cs ih =>
    rw [encodeChars_cons, strictChars?_cons (next?_utf8EncodeChar c _), List.drop_left, ih]
    rfl

/-- The bytes between two boundaries are those of a text. -/
theorem decode?_slice (front shown back : List Char) :
    decode? (((encodeChars (front ++ (shown ++ back))).take (encodeChars (front ++ shown)).length).drop
      (encodeChars front).length) = some (String.ofList shown) := by
  rw [← List.append_assoc, encodeChars_append (front ++ shown), List.take_left, encodeChars_append,
    List.drop_left, decode?, strictChars?_encodeChars]
  rfl

end Utf8

namespace Excerpt

open Utf8

/-! ## The window -/

/-- What a snippet of a size shows of a text: with the point at the last boundary that is not past the offset,
the characters next to it on both sides, as many as the size allows or as there are. -/
structure Window (text : List Char) (offset size : Nat) (front left right back : List Char) : Prop where
  whole : text = front ++ left ++ (right ++ back)
  reached : (encodeChars (front ++ left)).length ≤ offset
  latest : ∀ k ≤ offset, IsBoundary text k → k ≤ (encodeChars (front ++ left)).length
  length_left : left.length = min size (front ++ left).length
  length_right : right.length = min (size + 1) (right ++ back).length

/-- Splitting a text drops nothing of it. -/
theorem append_splitAtOffset (text : List Char) (offset : Nat) :
    (splitAtOffset text offset).1 ++ (splitAtOffset text offset).2 = text := by
  induction text generalizing offset with
  | nil => rfl
  | cons c rest ih =>
    unfold splitAtOffset
    split
    · exact congrArg (c :: ·) (ih _)
    · rfl

/-- The front of a split is no longer than the offset. -/
theorem length_splitAtOffset_le (text : List Char) (offset : Nat) :
    (encodeChars (splitAtOffset text offset).1).length ≤ offset := by
  induction text generalizing offset with
  | nil => exact Nat.zero_le _
  | cons c rest ih =>
    unfold splitAtOffset
    split
    · have hrest := ih (offset - c.utf8Size)
      simp only [encodeChars_cons, List.length_append, String.length_utf8EncodeChar]
      omega
    · exact Nat.zero_le _

/-- Every beginning of a text that is not past the offset is part of what is split off. -/
theorem isPrefix_splitAtOffset {text before after : List Char} {offset : Nat}
    (htext : text = before ++ after) (h : (encodeChars before).length ≤ offset) :
    before <+: (splitAtOffset text offset).1 := by
  induction text generalizing offset before with
  | nil =>
    rw [(List.append_eq_nil_iff.mp htext.symm).1]
    exact List.nil_prefix
  | cons c rest ih =>
    cases before with
    | nil => exact List.nil_prefix
    | cons d before =>
      obtain ⟨rfl, hrest⟩ := List.cons_eq_cons.mp htext
      rw [encodeChars_cons, List.length_append, String.length_utf8EncodeChar] at h
      unfold splitAtOffset
      rw [if_pos (by omega)]
      exact (List.prefix_cons_inj _).mpr (ih hrest (by omega))

/-- No text that a machine word can count is cut off where the size leaves no room for one more. -/
theorem firstOrAll_wrapped {text : List Char} (htext : text.length < wordValues) {size : Nat}
    (hsize : size < wordValues) :
    firstOrAll text ((size + 1) % wordValues) = text.take (size + 1) := by
  unfold firstOrAll
  by_cases hmax : size + 1 = wordValues
  · rw [hmax, Nat.mod_self, if_pos rfl, List.take_of_length_le (by omega)]
  · rw [Nat.mod_eq_of_lt (by omega), if_neg (by omega)]

/-- Every text has a window around every offset, and the snippet shows it. -/
theorem exists_window {text : String} (htext : text.length < wordValues) (offset : Nat) {size : Nat}
    (hsize : size < wordValues) :
    ∃ front left right back, Window text.toList offset size front left right back ∧
      snippet text offset size = String.ofList (left ++ right ++ '\n' :: caret left.length) := by
  obtain ⟨before, after, hsplit⟩ :
      ∃ before after, splitAtOffset text.toList offset = (before, after) := ⟨_, _, rfl⟩
  have hwhole := append_splitAtOffset text.toList offset
  have hreached := length_splitAtOffset_le text.toList offset
  rw [hsplit] at hwhole hreached
  dsimp only at hwhole
  -- the text fits a word, so counting the characters behind the point cannot wrap before their end
  have hlength : after.length < wordValues := by
    have htotal := congrArg List.length hwhole
    rw [List.length_append, String.length_toList] at htotal
    omega
  have hbefore := List.take_append_drop (before.length - size) before
  have hafter := List.take_append_drop (size + 1) after
  refine ⟨before.take (before.length - size), before.drop (before.length - size), after.take (size + 1),
    after.drop (size + 1), ⟨?_, ?_, ?_, ?_, ?_⟩, ?_⟩
  · rw [hbefore, hafter, hwhole]
  · rwa [hbefore]
  · -- every other boundary up to the offset lies in front of the split
    rintro k hk ⟨u, v, htext, rfl⟩
    have hprefix := isPrefix_splitAtOffset htext hk
    rw [hsplit] at hprefix
    obtain ⟨more, hmore : u ++ more = before⟩ := hprefix
    rw [hbefore, ← hmore, encodeChars_append, List.length_append]
    exact Nat.le_add_right _ _
  · rw [hbefore, List.length_drop]
    omega
  · rw [hafter, List.length_take]
  · unfold snippet
    rw [hsplit]
    dsimp only
    rw [firstOrAll_wrapped hlength hsize]

/-! ## The caret -/

/-- Whether a message shows a part of a text and a caret, the caret on the row below the one that a point of
the text is on, and in the column of that point. -/
def CaretBelow (message left right : List Char) : Prop :=
  ∃ margin, message = left ++ right ++ '\n' :: (margin ++ ['^']) ∧
    (Position.behind (left ++ right ++ '\n' :: margin)).line = (Position.behind left).line + 1 ∧
    (Position.behind (left ++ right ++ '\n' :: margin)).column = (Position.behind left).column

/-- The columns of a row are those of the last line. -/
theorem column_behind (text : List Char) :
    (Position.behind text).column = 1 + (lastLine text).length := by
  simp [Position.behind, lastLine]

/-- A last line is as long as the text only if it is the text. -/
theorem length_lastLine_eq_iff {text : List Char} :
    (lastLine text).length = text.length ↔ '\n' ∉ text := by
  constructor
  · intro h
    rcases eq_lastLine_or text with hline | ⟨front, hfront⟩
    · exact hline ▸ newline_not_mem_lastLine text
    · have hlength := congrArg List.length hfront
      simp only [List.length_append, List.length_cons] at hlength
      omega
  · intro h
    rw [lastLine_of_not_mem h]

/-- A caret that is moved by the characters before the point is below it only if no newline is shown. -/
theorem caretBelow_caret {left right : List Char} :
    CaretBelow (left ++ right ++ '\n' :: caret left.length) left right ↔ '\n' ∉ left ∧ '\n' ∉ right := by
  let margin := List.replicate left.length ' '
  have hmargin : '\n' ∉ margin := fun h => absurd (List.eq_of_mem_replicate h) (by decide)
  have hline : (Position.behind (left ++ right ++ '\n' :: margin)).line =
      (Position.behind left).line + 1 ↔ '\n' ∉ right := by
    simp only [Position.behind, List.count_append, List.count_cons_self]
    rw [List.count_eq_zero.mpr hmargin, ← List.count_eq_zero]
    omega
  have hcolumn : (Position.behind (left ++ right ++ '\n' :: margin)).column =
      (Position.behind left).column ↔ '\n' ∉ left := by
    rw [column_behind, column_behind, lastLine_append_newline _ hmargin, List.length_replicate,
      ← length_lastLine_eq_iff]
    omega
  constructor
  · rintro ⟨margin', hmessage, hrow, hplace⟩
    have hsame := List.append_cancel_left hmessage
    obtain rfl : margin = margin' := List.append_cancel_right (List.cons_eq_cons.mp hsame).2
    exact ⟨hcolumn.mp hplace, hline.mp hrow⟩
  · rintro ⟨hleft, hright⟩
    exact ⟨margin, rfl, hline.mpr hright, hcolumn.mpr hleft⟩

/-- A snippet shows the window around the last boundary that is not past the offset: bytes that lie between
boundaries. Where sums are checked there is a snippet of every size but the largest. Its caret is below the
character at that point if and only if the window is part of one line. -/
theorem snippet_shows {text : String} (htext : text.length < wordValues) (offset : Nat) {size : Nat}
    (hsize : size < wordValues) :
    (snippetChecked? text offset size =
      if size = wordValues - 1 then none else some (snippet text offset size)) ∧
    ∃ front left right back, Window text.toList offset size front left right back ∧
      snippet text offset size = String.ofList (left ++ right ++ '\n' :: caret left.length) ∧
      decode? (((encode text).take (encodeChars (front ++ (left ++ right))).length).drop
        (encodeChars front).length) = some (String.ofList (left ++ right)) ∧
      (CaretBelow (snippet text offset size).toList left right ↔ '\n' ∉ left ∧ '\n' ∉ right) := by
  constructor
  · unfold snippetChecked?
    by_cases hmax : size = wordValues - 1
    · rw [if_neg (by omega), if_pos hmax]
    · rw [if_pos (by omega), if_neg hmax]
  · obtain ⟨front, left, right, back, hwindow, hsnippet⟩ := exists_window htext offset hsize
    refine ⟨front, left, right, back, hwindow, hsnippet, ?_, ?_⟩
    · have hwhole : text.toList = front ++ (left ++ right ++ back) := by
        rw [hwindow.whole]
        simp
      rw [encode, hwhole]
      exact decode?_slice front (left ++ right) back
    · rw [hsnippet, String.toList_ofList]
      exact caretBelow_caret

/-- The largest size shows all of a text, and is a fault where sums are checked. -/
theorem snippet_shows_largest :
    "ab".length < wordValues ∧ wordValues - 1 < wordValues ∧
      snippetChecked? "ab" 1 (wordValues - 1) = none ∧ snippet "ab" 1 (wordValues - 1) = "ab\n ^" ∧
      ∃ front left right back, Window "ab".toList 1 (wordValues - 1) front left right back ∧
        CaretBelow (snippet "ab" 1 (wordValues - 1)).toList left right := by
  have htext : "ab".length < wordValues := by decide
  have hsize : wordValues - 1 < wordValues := by decide
  obtain ⟨hchecked, front, left, right, back, hwindow, -, -, hcaret⟩ := snippet_shows htext 1 hsize
  rw [if_pos rfl] at hchecked
  -- there is no newline in the text, so there is none in a part of it
  have hnewline : '\n' ∉ "ab".toList := by decide
  rw [hwindow.whole] at hnewline
  simp only [List.mem_append, not_or] at hnewline
  exact ⟨htext, hsize, hchecked, by decide +kernel, front, left, right, back, hwindow,
    hcaret.mpr ⟨hnewline.1.2, hnewline.2.1⟩⟩

/-- The caret for the `b` on the second line of a text stands two columns to the right of it. -/
theorem not_caretBelow_secondLine :
    ¬∀ (text : String) (offset size : Nat) (front left right back : List Char),
      Window text.toList offset size front left right back →
      CaretBelow (snippet text offset size).toList left right := by
  intro h
  have hwindow : Window "a\nb".toList 2 2 [] ['a', '\n'] ['b'] [] := by
    refine ⟨rfl, by decide, ?_, rfl, rfl⟩
    intro k hk _
    exact hk
  have hsnippet : (snippet "a\nb" 2 2).toList = ['a', '\n'] ++ ['b'] ++ '\n' :: caret 2 := by decide
  have hbelow := h _ _ _ _ _ _ _ hwindow
  rw [hsnippet] at hbelow
  exact absurd (caretBelow_caret.mp hbelow).1 (by decide)

end Excerpt

end ShellScript
