import ShellScript.Proofs.Boundary
import ShellScript.Proofs.Words

/-!
# Commands that can be read back

What is known of the commands that a parser reads: their words are made of readable elements, a terminator
is the separator that a character is, and only the last command of a script may lack one.
-/

namespace ShellScript

namespace Lexer

variable {escape : EscapeSet} {commandOpen : Bool} {l l' : Lexer Cursor}

/-- A step within a token keeps what is gathered readable. -/
theorem readable_of_wordStep {g g' : Gathering} (hg : AllReadable g.elements)
    (h : wordStep escape commandOpen g l = (.ok (.more g'), l')) : AllReadable g'.elements := by
  unfold wordStep at h
  split at h
  · cases h
  · cases h
  · rename_i c l₁ hn
    have hes := hg.settle l₁.filename
    cases wordRune_ok h with
    | joins => exact hg
    | begins => exact hes
    | leads => exact .nil
    | continues => exact hes
    | escapes => exact hes
    | single => exact hes.append (.singleton trivial)
    | double _ read => exact hes.append (readable_of_readDoubleQuoted read)
    | dollar _ read => exact hes.append (readable_of_readDollar read)
    | bare => exact hes
    | comment => exact .nil

/-- A token is made of readable elements, but for a separator at its end. -/
structure ReadableToken (escape : EscapeSet) (t : Token) : Prop where
  word : AllReadable t.splitSeparator.1.elements
  separator : ∀ s, t.splitSeparator.2 = some s → s.endsCommand = true →
    ∃ c, role escape c = .separator s

/-- A word of readable elements is a readable token. -/
theorem readableToken_of_word {es : List Element} (h : AllReadable es) :
    ReadableToken escape ⟨es⟩ := by
  have hs := Token.separator?_of_plain fun e he => (h e he).separator?_eq
  constructor
  · simpa [Token.splitSeparator, hs] using h
  · simp [Token.splitSeparator, hs]

/-- So is one with a separator behind it that its own character is. -/
theorem readableToken_of_separator {es : List Element} (h : AllReadable es) {s : Separator}
    (hs : s.endsCommand = true → ∃ c, role escape c = .separator s) :
    ReadableToken escape ⟨es ++ [.separator s]⟩ := by
  constructor
  · simpa [Token.splitSeparator, Token.separator?_of_separator] using h
  · rintro s' hs'
    simp only [Token.splitSeparator, Token.separator?_of_separator] at hs'
    cases hs'
    exact hs

/-- So is what elements make, if they make a token. -/
theorem readableToken_of_ofElements? {es : List Element} (h : AllReadable es) {t : Token}
    (ht : Token.ofElements? es = some t) : ReadableToken escape t :=
  Token.ofElements?_eq_some ht ▸ readableToken_of_word h

/-- The last step of a token. -/
theorem readableToken_of_wordStep {g : Gathering} (hg : AllReadable g.elements) {t : Token}
    (h : wordStep escape commandOpen g l = (.ok (.done (some t)), l')) : ReadableToken escape t := by
  obtain ⟨filename, hends⟩ := wordStep_done h
  have hes := hg.settle filename
  generalize g.settle filename = es at hes hends
  generalize ht : some t = t' at hends
  cases hends with
  | input => exact readableToken_of_ofElements? hes ht.symm
  | comment => exact readableToken_of_ofElements? hes ht.symm
  | blank =>
    cases ht
    exact readableToken_of_word hes
  | @separator c _ _ _ _ _ meaning read =>
    cases ht
    refine readableToken_of_separator hes fun hs => ⟨c, ?_⟩
    rw [meaning, (readSeparator_of_endsCommand read hs).1]
  | dollar literal =>
    cases ht
    exact readableToken_of_word (hes.append (.singleton trivial))

/-- Every token that is read can be read back. -/
theorem readableToken_of_readToken {t : Token}
    (h : l.readToken escape commandOpen = (.ok (some t), l')) : ReadableToken escape t := by
  obtain ⟨g, l₁, hg, hlast⟩ := iterate_ok (P := fun g _ => AllReadable g.elements)
    readable_of_wordStep .nil h
  exact readableToken_of_wordStep hg hlast

/-- A separator that is always known is written as its character. -/
theorem toSource_of_fixed? {c : Char} {s : Separator} (h : Separator.fixed? c = some s) :
    s.toSource = c.toString := by
  unfold Separator.fixed? at h
  split at h <;> cases h <;> rfl

/-- A character is a separator whatever the escape set, or because the set holds it. -/
theorem separator_of_role {c : Char} {s : Separator} (h : role escape c = .separator s) :
    Separator.fixed? c = some s ∨ escape.contains c = true ∧ s = .other c := by
  unfold role EscapeSet.separator? at h
  split at h
  · cases h
  · cases hf : Separator.fixed? c <;> cases hc : escape.contains c <;> simp [hf, hc] at h
    · split at h <;> cases h
    · exact .inr ⟨rfl, h.symm⟩
    · exact .inl (congrArg some h)
    · exact .inl (congrArg some h)

/-- The source of a separator is its character. -/
theorem toSource_of_role {c : Char} {s : Separator} (h : role escape c = .separator s) :
    s.toSource = c.toString := by
  rcases separator_of_role h with hfixed | ⟨-, rfl⟩
  · exact toSource_of_fixed? hfixed
  · rfl

/-- Skipping a line finds no newline only at the end. -/
theorem rest_of_skipToNewline {c c' : Cursor} (h : Input.skipToNewline c = (.ok false, c')) :
    c'.rest = [] := by
  have hpeek {c c' : Cursor} (hp : Input.peekByte c = (.ok none, c')) : c'.rest = [] := by
    injection hp with h₁ h₂
    injection h₁ with h₁
    exact h₂ ▸ List.head?_eq_none_iff.mp h₁
  have hnext {c c' : Cursor} (hn : Input.nextByte c = (.ok none, c')) : c'.rest = [] := by
    injection hn with h₁ h₂
    injection h₁ with h₁
    unfold Cursor.nextByte at h₁ h₂
    cases hr : c.rest with
    | nil =>
      rw [hr] at h₂
      exact h₂ ▸ rfl
    | cons b rest =>
      rw [hr] at h₁
      cases h₁
  -- only where a byte is missing is there no newline
  fun_induction Input.skipToNewline c with
  | case1 s e s₁ hp => cases h
  | case2 s s₁ hp => cases h; exact hpeek hp
  | case3 s s₁ hp => cases h
  | case4 s b s₁ hp hb e s₂ hn => cases h
  | case5 s b s₁ hp hb s₂ hn => cases h; exact hnext hn
  | case6 s b s₁ hp hb b' s₂ hn ih => exact ih h

/-- Behind a comment that no line ends there is nothing. -/
theorem rest_of_skipComment (h : l.skipComment = (.ok false, l')) : l'.input.rest = [] := by
  unfold skipComment at h
  split at h
  · cases h
  · rename_i found l₁ hs
    cases h
    have hrest := rest_of_skipToNewline (lift_eq_ok hs)
    exact hrest

/-- There is no token only at the end of the input. -/
theorem rest_of_readToken (h : l.readToken escape commandOpen = (.ok none, l')) :
    l'.input.rest = [] := by
  obtain ⟨g, l₁, -, hlast⟩ := iterate_ok (P := fun _ _ => True) (fun _ _ => trivial) trivial h
  obtain ⟨filename, hends⟩ := wordStep_done hlast
  generalize g.settle filename = es at hends
  generalize ht : none = t at hends
  cases hends with
  | input ended => exact rest_of_nextRune ended
  | comment skipped last =>
    cases es with
    | nil => exact rest_of_skipComment (last rfl ▸ skipped)
    | cons e es => cases ht
  | blank => cases ht
  | separator => cases ht
  | dollar => cases ht

end Lexer

/-! ## Commands -/

/-- Whether the source of a command reads as that command. -/
structure Command.Readable (escape : EscapeSet) (c : Command) : Prop where
  tokens : c.tokens ≠ []
  words : ∀ t ∈ c.tokens, t.elements ≠ [] ∧ AllReadable t.elements
  terminator : ∀ s, c.terminator = some s → s.endsCommand = true ∧ ∃ rune, role escape rune = .separator s

namespace Lexer

variable {escape : EscapeSet} {l l' : Lexer Cursor}

/-- Words of a command in the making, which can be read back. -/
def ReadableWords (a : Assembly) : Prop :=
  ∀ t ∈ a.words, t.elements ≠ [] ∧ AllReadable t.elements

/-- One more word can be read back with the others. -/
theorem ReadableWords.add {a : Assembly} (h : ReadableWords a) {word : Token}
    (hword : AllReadable word.elements) (start : Location) : ReadableWords (a.add word start) := by
  unfold Assembly.add
  split
  · exact h
  · rename_i hempty
    intro t ht
    rcases List.mem_append.mp ht with ht | ht
    · exact h t ht
    · rw [List.mem_singleton.mp ht]
      exact ⟨by simpa [Token.isEmpty] using hempty, hword⟩

/-- A step of a command adds such a word. -/
theorem readableWords_of_commandStep {a a' : Assembly} (ha : ReadableWords a)
    (h : commandStep escape a l = (.ok (.more a'), l')) : ReadableWords a' := by
  obtain ⟨t, l₁, ht, rfl⟩ := commandStep_more h
  exact ha.add (readableToken_of_readToken ht).word l₁.startLocation

/-- A command that was read can be read back, and only at the end of the input it has no terminator. -/
theorem readable_of_readCommand {c : Command} (h : l.readCommand escape = (.ok (some c), l')) :
    c.Readable escape ∧ (c.terminator = none → l'.input.rest = []) := by
  obtain ⟨a, l₁, ha, hlast⟩ := iterate_ok (P := fun a _ => ReadableWords a)
    readableWords_of_commandStep (by simp [ReadableWords]) h
  cases commandStep_done hlast with
  | input ended words behind =>
    exact ⟨⟨words, ha, by simp⟩, fun _ => behind ▸ rest_of_readToken ended⟩
  | @separator t s l₂ _ token last ends words _ =>
    have htoken := readableToken_of_readToken token
    refine ⟨⟨words, ha.add htoken.word l₂.startLocation, ?_⟩, by simp⟩
    rintro s' hs'
    cases hs'
    exact ⟨ends, htoken.separator s last ends⟩

/-- There is no command only at the end of the input. -/
theorem rest_of_readCommand (h : l.readCommand escape = (.ok none, l')) : l'.input.rest = [] := by
  obtain ⟨a, l₁, -, hlast⟩ := iterate_ok (P := fun _ _ => True) (fun _ _ => trivial) trivial h
  cases commandStep_done hlast with
  | nothing ended => exact rest_of_readToken ended

end Lexer

/-! ## Scripts -/

/-- Commands that make up a script which can be read back: only the last one may have no terminator. -/
def ReadableScript (escape : EscapeSet) : List Command → Prop
  | [] => True
  | c :: cs => c.Readable escape ∧ (c.terminator = none → cs = []) ∧ ReadableScript escape cs

/-- A collection succeeds if and only if all items do. -/
theorem mapM_id_eq_ok {ε α : Type} {items : List (Except ε α)} {as : List α} :
    items.mapM id = .ok as ↔ items = as.map .ok := by
  induction items generalizing as with
  | nil => cases as <;> simp [pure, Except.pure]
  | cons item items ih =>
    rw [List.mapM_cons]
    cases item with
    | error e => cases as <;> simp [bind, Except.bind]
    | ok a =>
      cases as with
      | nil => cases items.mapM id <;> simp [bind, Except.bind, pure, Except.pure]
      | cons b as =>
        rw [List.map_cons, List.cons.injEq, ← ih]
        cases items.mapM id <;> simp [bind, Except.bind, pure, Except.pure]

namespace Parser

/-- A parser collects commands if it yields these and no error. -/
theorem collect_eq_ok {σ : Type} [Input σ] {p : Parser σ} {cs : List Command} :
    p.collect.1 = .ok cs ↔ p.items.1 = cs.map .ok :=
  mapM_id_eq_ok

/-- The error that ends the items is the error of the collection. -/
theorem collect_of_items_error {σ : Type} [Input σ] {p : Parser σ} {cs : List Command} {e : ParseError}
    (h : p.items.1 = cs.map .ok ++ [.error e]) : p.collect.1 = .error e := by
  change p.items.1.mapM id = .error e
  rw [h]
  clear h
  induction cs with
  | nil => rfl
  | cons c cs ih =>
    rw [List.map_cons, List.cons_append, List.mapM_cons, ih]
    rfl

variable {p p₁ : Parser Cursor} {cs : List Command}

/-- At the end of the input there is no command. -/
theorem items_of_rest (h : p.lexer.input.rest = []) : p.items.1 = [] := by
  have hnext : p.next.1 = none := by
    obtain ⟨l, ht, -⟩ := Lexer.readToken_end p.escape false h
    unfold next readCommand readCommandWith Lexer.readCommand
    rw [Lexer.iterate_eq]
    simp only [Lexer.commandStep, List.isEmpty_nil, Bool.not_true, ht, if_true]
    split <;> rfl
  rw [items_eq]
  cases hn : p.next with
  | mk item p₁ =>
    rw [hn] at hnext
    cases hnext
    rfl

/-- The commands of a script that was read to its end can be read back. -/
theorem readableScript_of_items (h : p.items.1 = cs.map .ok) : ReadableScript p.escape cs := by
  induction cs generalizing p with
  | nil => trivial
  | cons c cs ih =>
    obtain ⟨l, hr, hcs⟩ := readCommand_of_items h
    obtain ⟨hc, hlast⟩ := Lexer.readable_of_readCommand hr
    refine ⟨hc, fun hterminator => ?_, ih (p := { p with lexer := l, failed := false }) hcs⟩
    rw [items_of_rest (hlast hterminator)] at hcs
    simpa using hcs.symm

end Parser

end ShellScript
