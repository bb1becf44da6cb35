import ShellScript.Proofs.Sources

/-!
# Chosen separators

The reader of a script chooses characters that are to end commands. A chosen character ends the word
before it unless it is one of those that join text (`isShellSafe`): they are looked for first, and the
escape set is not asked about them. `ends_iff_not_safe` says so of tokens and of commands. A letter, a
digit, or one of `%+-./:=@_` that was chosen ends nothing.
-/

namespace ShellScript

/-! ## Chosen characters -/

namespace EscapeSet

variable {escape : EscapeSet} {c : Char} {s : Separator}

/-- Only ASCII characters can be chosen. -/
theorem toNat_lt_of_contains (hc : escape.contains c = true) : c.toNat < 128 :=
  BitVec.lt_of_getLsbD hc

/-- Any chosen character but the pipe stands for what ends a command. -/
theorem endsCommand_of_separator? (hpipe : c ≠ '|') (h : escape.separator? c = some s) :
    s.endsCommand = true := by
  unfold separator? Separator.fixed? at h
  split at h
  · cases h
    split
    · rfl
    · rfl
    · exact (hpipe rfl).elim
    · rfl
  · cases h

end EscapeSet

/-- A chosen character is a separator unless it joins text. -/
theorem role_of_separator? {escape : EscapeSet} {c : Char} {s : Separator} (hsafe : isShellSafe c = false)
    (h : escape.separator? c = some s) : role escape c = .separator s := by
  unfold role
  rw [hsafe, h]
  rfl

namespace Lexer

variable {escape : EscapeSet} {l l₁ : Lexer Cursor} {rest : List UInt8}

/-! ## Runs of text -/

/-- A character that joins text is added to the text that was begun. -/
theorem adds_wordStep (escape : EscapeSet) (commandOpen : Bool) {c : Char} (hc : isShellSafe c = true) :
    Adds (wordStep escape commandOpen) c := by
  intro g l l₁ hn
  have hrole : role escape c = .safe := if_pos hc
  unfold wordStep wordRune
  simp only [hn, hrole]

/-- Such characters at the start of a token are gathered, up to what follows. -/
theorem readToken_safe (escape : EscapeSet) (commandOpen : Bool) {bytes more : List UInt8} (hne : bytes ≠ [])
    (hsafe : ∀ c ∈ Utf8.runes bytes, isShellSafe c = true)
    (hmore : ∀ b ∈ more.head?, Utf8.isContinuation b = false) (h : l.input.rest = bytes ++ more) :
    ∃ l', l.readToken escape commandOpen = iterate (wordStep escape commandOpen) size_wordStep_lt
        ⟨[], ⟨String.ofList (Utf8.runes bytes), some l.position⟩⟩ l' ∧
      l'.input.rest = more ∧ l'.filename = l.filename := by
  obtain ⟨lead, bytes, rfl⟩ := List.exists_cons_of_ne_nil hne
  rw [Utf8.runes_cons] at hsafe ⊢
  -- the first character says where the text begins
  obtain ⟨l₁, hn, hrest, hfilename⟩ :=
    nextRune_bytes (l := { l with tokenStart := l.position }) hmore h
  obtain ⟨l', hrun, hleft, hfilename'⟩ := iterate_runes size_wordStep_lt
    (fun c hc => adds_wordStep escape commandOpen (hsafe c (by simp [hc]))) hmore []
    (String.push "" (Utf8.nextRune lead bytes).1) l.position hrest
  refine ⟨l', ?_, hleft, hfilename'.trans hfilename⟩
  rw [readToken, iterate_eq, adds_wordStep escape commandOpen (hsafe _ (by simp)) hn]
  refine hrun.trans ?_
  rw [String.push_eq_append, String.empty_append, ← String.ofList_cons]

/-- A word of such characters is one literal, which ends before the separator behind it. -/
theorem readToken_word (commandOpen : Bool) {w : String} (hw : w ≠ "")
    (hsafe : ∀ d ∈ w.toList, isShellSafe d = true) {c : Char} {s : Separator}
    (hrole : role escape c = .separator s) (hs : s.endsCommand = true)
    (h : l.input.rest = Utf8.encode w ++ (String.utf8EncodeChar c ++ rest)) :
    ∃ l', l.readToken escape commandOpen =
        (.ok (some ⟨[.literal ⟨w, l.location⟩, .separator s]⟩), l') ∧ l'.input.rest = rest := by
  have hne : Utf8.encode w ≠ [] := by simpa [Utf8.encode, Utf8.encodeChars_eq_nil] using hw
  have hrunes : Utf8.runes (Utf8.encode w) = w.toList := Utf8.runes_encodeChars _
  obtain ⟨b, t, hb, hn⟩ := Utf8.utf8EncodeChar_eq_cons c
  have hfirst := Utf8.not_isContinuation_of_next? hn
  obtain ⟨l₁, hrun, hrest, hfilename⟩ := readToken_safe escape commandOpen hne
    (hrunes ▸ hsafe) (by simpa [hb] using hfirst) h
  obtain ⟨l₂, hlast, hleft⟩ := wordStep_separator commandOpen hrole hs
    ⟨[], ⟨w, some l.position⟩⟩ hrest
  have hsettle : Gathering.settle ⟨[], ⟨w, some l.position⟩⟩ l₁.filename =
      [.literal ⟨w, l.location⟩] := by
    simp [Gathering.settle, hw, hfilename, location, place]
  refine ⟨l₂, ?_, hleft⟩
  rw [hrun, hrunes, String.ofList_toList, iterate_eq, hlast, hsettle]
  rfl

end Lexer

/-- The last character that was read is the last one before what is left. -/
theorem Cursor.eq_of_nextRune {k : Cursor} {before rest : List UInt8} {c d : Char}
    (hk : k.Within (before ++ (String.utf8EncodeChar c ++ rest))) (hc : c.toNat < 128)
    (hd : d.toNat < 128) (hn : k.nextRune.1 = some d) (hrest : k.nextRune.2.rest = rest) : d = c := by
  obtain ⟨passed, hwhole, -⟩ := hk
  -- the text is cut twice before `rest`, behind one byte each
  rw [Cursor.rest_of_ascii hn hd, hrest, Utf8.utf8EncodeChar_ascii hc, Utf8.utf8EncodeChar_ascii hd,
    ← List.append_assoc, ← List.append_assoc] at hwhole
  have hlast := List.append_cancel_right hwhole
  have hbyte : [Utf8.ascii c] = [Utf8.ascii d] := (List.append_inj' hlast rfl).2
  exact (Utf8.ascii_inj hc hd (List.singleton_inj.mp hbyte)).symm

/-! ## Words before a chosen character -/

section

variable (escape : EscapeSet) (filename : String) (w : String) (c : Char) (rest : List UInt8)

/-- A word, a character behind it, and more. -/
def wordThen : List UInt8 := Utf8.encode w ++ (String.utf8EncodeChar c ++ rest)

/-- Whether a character ends the word before it: the token is the word with the separator that the
character is, and nothing behind the character is read. -/
def EndsWord (commandOpen : Bool) : Prop :=
  ∃ s, escape.separator? c = some s ∧
    ∃ l, (Parser.ofBytes (wordThen w c rest) filename escape).lexer.readToken escape commandOpen =
        (.ok (some ⟨[.literal ⟨w, ⟨filename, .start⟩⟩, .separator s]⟩), l) ∧
      l.input.unread = rest

/-- Whether a character ends a command that is the word before it. -/
def EndsCommand : Prop :=
  ∃ s, escape.separator? c = some s ∧
    ∃ command : Command, command.tokens = [⟨[.literal ⟨w, ⟨filename, .start⟩⟩]⟩] ∧
      command.terminator = some s ∧
      ∃ p, (Parser.ofBytes (wordThen w c rest) filename escape).readCommand = (.ok (some command), p) ∧
        p.lexer.input.unread = rest

end

variable {escape : EscapeSet} {filename w : String} {c : Char} {rest : List UInt8}

/-- A command is read from a reader as it is from the same bytes held in memory. -/
theorem Parser.exists_readCommand_ofBytes {bytes : List UInt8} {command : Option Command} :
    (∃ p, (ofBytes bytes filename escape).readCommand = (.ok command, p) ∧
        p.lexer.input.unread = rest) ↔
      ∃ l, (ofCursor bytes filename escape).lexer.readCommand escape = (.ok command, l) ∧
        l.input.rest = rest := by
  refine Iff.trans ?_ (Lexer.exists_read_of_follows <| Lexer.readCommand_of_steady
    (l := (ofBytes bytes filename escape).lexer) escape ⟨rfl, nofun⟩)
  constructor
  · rintro ⟨p, hp, hrest⟩
    obtain ⟨l, hl, rfl⟩ := readCommand_eq_ok.mp hp
    exact ⟨l, hl, hrest⟩
  · rintro ⟨l, hl, hrest⟩
    exact ⟨_, readCommand_eq_ok.mpr ⟨l, hl, rfl⟩, hrest⟩

/-- A chosen character that a separator was read from, as the last one before what is left, does not join
text. -/
theorem not_safe_of_last {l l' : Lexer Cursor} {d : Char} {s : Separator}
    (hc : escape.contains c = true) (hl : l.input.Within (wordThen w c rest))
    (hn : l.nextRune = (.ok (some d), l')) (hrole : role escape d = .separator s)
    (hrest : l'.input.rest = rest) : isShellSafe c = false := by
  obtain ⟨hrune, hinput⟩ := Cursor.nextRune_of_ok (Lexer.lift_eq_ok hn)
  obtain rfl : d = c := Cursor.eq_of_nextRune hl (EscapeSet.toNat_lt_of_contains hc)
    (Lexer.toNat_lt_of_role hrole) hrune (hinput ▸ hrest)
  rw [Bool.eq_false_iff]
  intro hsafe
  -- joining text comes before every other role
  have hjoins : role escape d = .safe := if_pos hsafe
  rw [hjoins] at hrole
  cases hrole

variable {commandOpen : Bool}

/-- A chosen character behind a word ends it unless it joins text. -/
theorem endsWord_iff_not_safe (hc : escape.contains c = true) (hpipe : c ≠ '|') (hw : w ≠ "")
    (hsafe : ∀ d ∈ w.toList, isShellSafe d = true) :
    EndsWord escape filename w c rest commandOpen ↔ isShellSafe c = false := by
  constructor
  · rintro ⟨s, hs, hread⟩
    obtain ⟨l, hread, hrest⟩ := Parser.exists_readToken_ofBytes.mp hread
    obtain ⟨l₁, d, hwithin, hn, hrole⟩ := Lexer.readToken_of_separator (.start _) hread rfl
      (EscapeSet.endsCommand_of_separator? hpipe hs)
    exact not_safe_of_last hc hwithin hn hrole hrest
  · intro hnot
    have hs : escape.separator? c = some ((Separator.fixed? c).getD (.other c)) := if_pos hc
    exact ⟨_, hs, Parser.exists_readToken_ofBytes.mpr <| Lexer.readToken_word commandOpen hw hsafe
      (role_of_separator? hnot hs) (EscapeSet.endsCommand_of_separator? hpipe hs) rfl⟩

/-- So it is with the command that the word is. -/
theorem endsCommand_iff_not_safe (hc : escape.contains c = true) (hpipe : c ≠ '|') (hw : w ≠ "")
    (hsafe : ∀ d ∈ w.toList, isShellSafe d = true) :
    EndsCommand escape filename w c rest ↔ isShellSafe c = false := by
  constructor
  · rintro ⟨s, hs, command, -, hterminator, hread⟩
    obtain ⟨l, hread, hrest⟩ := Parser.exists_readCommand_ofBytes.mp hread
    obtain ⟨l₁, d, s', l₂, hwithin, hn, hrole, -, hinput⟩ := Lexer.readCommand_of_terminator (.start _)
      hread (by simp [hterminator])
    exact not_safe_of_last hc hwithin hn hrole (hinput ▸ hrest)
  · intro hnot
    have hs : escape.separator? c = some ((Separator.fixed? c).getD (.other c)) := if_pos hc
    have hends := EscapeSet.endsCommand_of_separator? hpipe hs
    let word : Element := .literal ⟨w, ⟨filename, .start⟩⟩
    obtain ⟨l, hread, hrest⟩ := Lexer.readToken_word false
      (l := (Parser.ofCursor (wordThen w c rest) filename escape).lexer) hw hsafe
      (role_of_separator? hnot hs) hends rfl
    have hword : ([] : List Token) ++ (Token.ofElements? [word]).toList ≠ [] := by
      simp [Token.ofElements?]
    obtain ⟨command, l', hstep, htokens, hterminator, hinput, -⟩ :=
      Lexer.commandStep_separator (a := {}) hends hword hread
    refine ⟨_, hs, command, htokens, hterminator, Parser.exists_readCommand_ofBytes.mpr ⟨l', ?_, ?_⟩⟩
    · rw [Lexer.readCommand, Lexer.iterate_eq, hstep]
    · rw [hinput, hrest]

/-- A chosen character other than the pipe ends the word before it, and the command that the word is, if
and only if it does not join text. -/
theorem ends_iff_not_safe (hc : escape.contains c = true) (hpipe : c ≠ '|') (hw : w ≠ "")
    (hsafe : ∀ d ∈ w.toList, isShellSafe d = true) :
    (EndsWord escape filename w c rest commandOpen ↔ isShellSafe c = false) ∧
      (EndsCommand escape filename w c rest ↔ isShellSafe c = false) :=
  ⟨endsWord_iff_not_safe hc hpipe hw hsafe, endsCommand_iff_not_safe hc hpipe hw hsafe⟩

/-- A comma that was chosen ends the word `a1`. -/
theorem ends_iff_not_safe_comma :
    (EscapeSet.ofChars [',']).contains ',' = true ∧ ',' ≠ '|' ∧ "a1" ≠ "" ∧
      (∀ d ∈ "a1".toList, isShellSafe d = true) ∧ isShellSafe ',' = false ∧
      EndsWord (.ofChars [',']) "s" "a1" ',' [0x3B] false ∧
      EndsCommand (.ofChars [',']) "s" "a1" ',' [0x3B] := by
  have hc : (EscapeSet.ofChars [',']).contains ',' = true := by decide
  have hsafe : ∀ d ∈ "a1".toList, isShellSafe d = true := by simp [isShellSafe]
  have hends : EndsWord (.ofChars [',']) "s" "a1" ',' [0x3B] false ∧
      EndsCommand (.ofChars [',']) "s" "a1" ',' [0x3B] :=
    (ends_iff_not_safe hc (by decide) (by decide) hsafe).imp (·.mpr (by decide)) (·.mpr (by decide))
  exact ⟨hc, by decide, by decide, hsafe, by decide, hends⟩

/-- A colon that was chosen does not end the word `a` before it in `a:b`, where no letter was chosen. -/
theorem not_ends_colon : ∃ escape, EscapeSet.ofSpec ":" = .ok escape ∧ escape.contains ':' = true ∧
    (∀ d ∈ "a".toList, d.isAlphanum = true ∧ escape.contains d = false) ∧
    ¬ EndsWord escape "s" "a" ':' [0x62] false ∧ ¬ EndsCommand escape "s" "a" ':' [0x62] := by
  have hc : (EscapeSet.ofChars [':']).contains ':' = true := by decide
  have hsafe : ∀ d ∈ "a".toList, isShellSafe d = true := by simp [isShellSafe]
  have hword : 'a'.isAlphanum = true ∧ (EscapeSet.ofChars [':']).contains 'a' = false := by decide
  refine ⟨.ofChars [':'], rfl, hc, by simpa using hword, fun h => ?_, fun h => ?_⟩
  · exact absurd ((endsWord_iff_not_safe hc (by decide) (by decide) hsafe).mp h) (by decide)
  · exact absurd ((endsCommand_iff_not_safe hc (by decide) (by decide) hsafe).mp h) (by decide)

end ShellScript
