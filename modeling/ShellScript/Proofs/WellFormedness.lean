import ShellScript.Proofs.Scripts

/-!
# What is read is well formed

The data types allow more than a reader ever answers: empty tokens, separators in the middle of a word,
references whose modifier begins with what should be part of the name. `WellFormed` says of references,
elements, tokens and commands what those who take them rely on without looking, and the last theorem says
that a parser on a stream answers nothing else, from whichever state it reads.
-/

namespace ShellScript

/-! ## References -/

/-- The name of a parameter: digits, a special character, or an identifier. -/
inductive ParameterName : List Char → Prop
  | positional {digits : List Char} (nonempty : digits ≠ []) (all : ∀ d ∈ digits, d.isDigit = true) :
    ParameterName digits
  | special {c : Char} (special : isSpecialParameter c = true) : ParameterName [c]
  | identifier {c : Char} {tail : List Char} (start : isNameStart c = true)
    (rest : ∀ d ∈ tail, isNameChar d = true) : ParameterName (c :: tail)

namespace ParameterName

variable {c d : Char} {tail : List Char}

/-- A name of several characters is made of digits or is an identifier. -/
theorem of_two (h : ParameterName (c :: tail)) (hd : d ∈ tail) :
    c.isDigit = true ∧ d.isDigit = true ∨ isNameStart c = true ∧ isNameChar d = true := by
  cases h with
  | positional _ all => exact .inl ⟨all c (by simp), all d (by simp [hd])⟩
  | special => simp at hd
  | identifier start rest => exact .inr ⟨start, rest d hd⟩

/-- Digits go on with digits only. -/
theorem isDigit_of_two (hc : c.isDigit = true) (h : ParameterName (c :: tail)) (hd : d ∈ tail) :
    d.isDigit = true := by
  rcases h.of_two hd with h | h
  · exact h.2
  · rw [not_isDigit_of_isNameStart h.1] at hc
    cases hc

/-- An identifier goes on with characters of names only. -/
theorem isNameChar_of_two (hc : isNameStart c = true) (h : ParameterName (c :: tail)) (hd : d ∈ tail) :
    isNameChar d = true := by
  rcases h.of_two hd with h | h
  · rw [not_isDigit_of_isNameStart hc] at h
    cases h.1
  · exact h.2

/-- Any other special parameter is a name by itself. -/
theorem eq_nil_of_special (hs : isSpecialParameter c = true) (hc : c.isDigit = false)
    (h : ParameterName (c :: tail)) : tail = [] := by
  cases tail with
  | nil => rfl
  | cons d tail =>
    rcases h.of_two (List.mem_cons_self) with h | h
    · rw [hc] at h
      cases h.1
    · rw [not_isSpecialParameter_of_isNameStart h.1] at hs
      cases hs

end ParameterName

/-- Whether a text goes on from a name without being more of it: with none of its first characters is the
name a name still. -/
def Detached (name modifier : List Char) : Prop :=
  ∀ more, more ≠ [] → more <+: modifier → ¬ParameterName (name ++ more)

/-- What is left after the longest run of some characters does not begin with one of them. -/
theorem not_of_prefix_dropWhile {p : Char → Bool} {cs more : List Char} {d : Char}
    (h : d :: more <+: cs.dropWhile p) : p d = false := by
  have hhead := List.head?_dropWhile_not p cs
  obtain ⟨rest, hrest⟩ := h
  rw [← hrest] at hhead
  simpa using hhead

/-- Where only characters of some kind would make a name longer, what stands behind a run of them is
detached from it. -/
theorem detached_dropWhile {p : Char → Bool} {name cs : List Char}
    (h : ∀ d more, ParameterName (name ++ d :: more) → p d = true) :
    Detached name (cs.dropWhile p) := by
  rintro (_ | ⟨d, more⟩) hmore hprefix hlonger
  · exact hmore rfl
  · have hd := h d more hlonger
    rw [not_of_prefix_dropWhile hprefix] at hd
    cases hd

/-- The name at the start of a braced body is one, and the longest. -/
theorem splitParameter_longest {cs name modifier : List Char}
    (h : splitParameter cs = (name, modifier)) (hname : name ≠ []) :
    ParameterName name ∧ Detached name modifier := by
  unfold splitParameter at h
  split at h
  · cases h
    exact (hname rfl).elim
  rename_i c rest
  split at h
  · rename_i hc
    cases h
    refine ⟨.positional hname fun d hd => List.mem_takeWhile_imp hd, detached_dropWhile ?_⟩
    intro d more hlonger
    rw [List.takeWhile_cons_of_pos hc, List.cons_append] at hlonger
    exact ParameterName.isDigit_of_two hc hlonger (by simp)
  rename_i hdigit
  split at h
  · -- a digit is a special parameter too, but digits were looked for first
    rename_i hc
    cases h
    exact ⟨.special hc, fun more hmore _ hlonger =>
      hmore (ParameterName.eq_nil_of_special hc (by simpa using hdigit) hlonger)⟩
  split at h
  · rename_i hc
    cases h
    refine ⟨.identifier hc fun d hd => List.mem_takeWhile_imp hd, detached_dropWhile ?_⟩
    intro d more hlonger
    exact ParameterName.isNameChar_of_two hc hlonger (by simp)
  · cases h
    exact (hname rfl).elim

namespace VariableRef

/-- A reference to a parameter, whose modifier is some text that does not go on with the name. -/
structure WellFormed (v : VariableRef) : Prop where
  name : ParameterName v.name.toList
  modifier : ∀ m, v.modifier = some m → m ≠ "" ∧ Detached v.name.toList m.toList

/-- What stands between braces is a well-formed reference or is rejected. -/
theorem wellFormed_of_ofBody {body : String} {p : Location} {v : VariableRef}
    (h : ofBody body p = .ok v) : v.WellFormed := by
  unfold ofBody at h
  split at h
  · cases h
  · split at h
    · cases h
    · rename_i name hs hname
      cases h
      obtain ⟨hparameter, -⟩ := splitParameter_longest hname hs
      exact ⟨by simpa using hparameter, by simp⟩
    · rename_i name modifier hs hm hname
      cases h
      obtain ⟨hparameter, hdetached⟩ := splitParameter_longest hname hs
      refine ⟨by simpa using hparameter, ?_⟩
      rintro m' hm'
      cases hm'
      exact ⟨by simpa [← String.toList_inj] using hm, by simpa using hdetached⟩

end VariableRef

/-! ## Elements -/

/-- Separators that readers with an escape set know: of the characters that are separators by choice, only
the chosen ones. -/
def Separator.Permitted (escape : EscapeSet) : Separator → Prop
  | .other c => escape.contains c = true
  | _ => True

/-- Elements that readers with an escape set answer. -/
def Element.WellFormed (escape : EscapeSet) : Element → Prop
  | .literal _ => True
  | .reference v => v.WellFormed
  | .substitution s => s.source.toList.head? ≠ some '('
  | .separator s => s.Permitted escape

variable {escape : EscapeSet}

/-- A readable element is well formed, whatever separates. -/
theorem Element.Readable.wellFormed {e : Element} (h : e.Readable) : e.WellFormed escape := by
  cases e with
  | literal => trivial
  | reference v => exact VariableRef.wellFormed_of_ofBody (h.2 default)
  | substitution s => exact h.2
  | separator s => exact h.elim

/-- So are all elements of a word. -/
theorem AllReadable.wellFormed {es : List Element} (h : AllReadable es) :
    ∀ e ∈ es, e.WellFormed escape :=
  fun e he => (h e he).wellFormed

/-! ## Tokens -/

/-- A token that readers with an escape set answer: some well-formed elements, of which only the last one
can be a separator. -/
structure Token.WellFormed (escape : EscapeSet) (t : Token) : Prop where
  nonempty : t.elements ≠ []
  elements : ∀ e ∈ t.elements, e.WellFormed escape
  plain : ∀ e ∈ t.elements.dropLast, e.separator? = none

namespace Token

variable {es : List Element}

/-- A word is a well-formed token. -/
theorem wellFormed_of_word (h : AllReadable es) (hne : es ≠ []) : WellFormed escape ⟨es⟩ where
  nonempty := hne
  elements := h.wellFormed
  plain e he := (h e (List.dropLast_subset es he)).separator?_eq

/-- So is the token that readable elements make. -/
theorem wellFormed_of_ofElements? (h : AllReadable es) {t : Token} (ht : ofElements? es = some t) :
    t.WellFormed escape := by
  cases es with
  | nil => cases ht
  | cons e es => exact ofElements?_eq_some ht ▸ wellFormed_of_word h (by simp)

/-- So is one that ends in a separator of the set. -/
theorem wellFormed_of_separator (h : AllReadable es) {s : Separator} (hs : s.Permitted escape) :
    WellFormed escape ⟨es ++ [.separator s]⟩ where
  nonempty := by simp
  elements e he := by
    rcases List.mem_append.mp he with he | he
    · exact (h e he).wellFormed
    · exact List.mem_singleton.mp he ▸ hs
  plain e he := (h e (by simpa using he)).separator?_eq

end Token

namespace Lexer

/-- A character that is a separator is a permitted one. -/
theorem permitted_of_role {c : Char} {s : Separator} (h : role escape c = .separator s) :
    s.Permitted escape := by
  rcases separator_of_role h with hfixed | ⟨hc, rfl⟩
  · unfold Separator.fixed? at hfixed
    split at hfixed <;> cases hfixed <;> trivial
  · exact hc

/-- A second pipe makes another permitted separator. -/
theorem permitted_of_readSeparator {σ : Type} [Input σ] {here : Position} {hasOperand : Bool}
    {s s' : Separator} {l l' : Lexer σ} (hs : s.Permitted escape)
    (h : readSeparator here hasOperand s l = (.ok s', l')) : s'.Permitted escape := by
  unfold readSeparator readPipe at h
  split at h
  · split at h
    · cases h
    · split at h
      · split at h <;> cases h
        trivial
      · cases h
        trivial
  · cases h
    exact hs

variable {commandOpen : Bool} {t : Token} {l l' : Lexer Cursor}

/-- Every token that a step ends in is well formed. -/
theorem wellFormed_of_wordStep {g : Gathering} (hg : AllReadable g.elements)
    (h : wordStep escape commandOpen g l = (.ok (.done (some t)), l')) : t.WellFormed escape := by
  obtain ⟨filename, hends⟩ := wordStep_done h
  have hes := hg.settle filename
  generalize g.settle filename = es at hes hends
  generalize ht : some t = t' at hends
  cases hends with
  | input => exact Token.wellFormed_of_ofElements? hes ht.symm
  | comment => exact Token.wellFormed_of_ofElements? hes ht.symm
  | blank word =>
    cases ht
    exact Token.wellFormed_of_word hes word
  | separator _ meaning read =>
    cases ht
    exact Token.wellFormed_of_separator hes (permitted_of_readSeparator (permitted_of_role meaning) read)
  | dollar literal =>
    cases ht
    exact Token.wellFormed_of_word (hes.append (.singleton trivial)) (by simp)

/-- A token that was read is well formed. -/
theorem wellFormed_of_readToken (h : l.readToken escape commandOpen = (.ok (some t), l')) :
    t.WellFormed escape := by
  obtain ⟨g, l₁, hg, hlast⟩ := iterate_ok (P := fun g _ => AllReadable g.elements)
    readable_of_wordStep .nil h
  exact wellFormed_of_wordStep hg hlast

end Lexer

/-! ## Commands -/

/-- A command that readers with an escape set answer: at least one word, no word empty and none with a
separator in it, and no terminator that joins the command to another one. -/
structure Command.WellFormed (escape : EscapeSet) (c : Command) : Prop where
  nonempty : c.tokens ≠ []
  words : ∀ t ∈ c.tokens, t.elements ≠ [] ∧
    ∀ e ∈ t.elements, e.WellFormed escape ∧ e.separator? = none
  terminator : ∀ s, c.terminator = some s → s ≠ .pipe ∧ s ≠ .pipePipe ∧ s.Permitted escape

/-- A command that can be read back is well formed. -/
theorem Command.Readable.wellFormed {c : Command} (h : c.Readable escape) : c.WellFormed escape where
  nonempty := h.tokens
  words t ht := by
    obtain ⟨hne, helements⟩ := h.words t ht
    exact ⟨hne, fun e he => ⟨(helements e he).wellFormed, (helements e he).separator?_eq⟩⟩
  terminator s hs := by
    obtain ⟨hends, rune, hrune⟩ := h.terminator s hs
    refine ⟨?_, ?_, Lexer.permitted_of_role hrune⟩
    · rintro rfl
      cases hends
    · rintro rfl
      cases hends

/-! ## Streams -/

namespace Parser

/-- Reading does not make a stream fail. -/
theorem steady_of_reads (escape : EscapeSet) (commandOpen : Bool) {p : Parser Scanner}
    (h : p.lexer.input.reader.Steady) :
    (p.lexer.readToken escape commandOpen).2.input.reader.Steady ∧
      (p.readCommandWith escape).2.lexer.input.reader.Steady := by
  have hcommand := (Lexer.readCommand_of_steady escape h).2.steady
  refine ⟨(Lexer.readToken_of_steady escape commandOpen h).2.steady, ?_⟩
  unfold readCommandWith
  split <;> rename_i hr <;> rwa [hr] at hcommand

/-- Every token and every command that is read from a stream is well formed, whatever was read from it
before. A command without terminator has the end of the stream behind it. -/
theorem reads_wellFormed (escape : EscapeSet) (commandOpen : Bool) {p : Parser Scanner}
    (steady : p.lexer.input.reader.Steady) :
    (∀ t l, p.lexer.readToken escape commandOpen = (.ok (some t), l) → t.WellFormed escape) ∧
    (∀ c q, p.readCommandWith escape = (.ok (some c), q) →
      c.WellFormed escape ∧ (c.terminator = none → q.lexer.input.unread = [])) ∧
    (p.lexer.readToken escape commandOpen).2.input.reader.Steady ∧
    (p.readCommandWith escape).2.lexer.input.reader.Steady := by
  refine ⟨fun t l ht => ?_, fun c q hc => ?_, steady_of_reads escape commandOpen steady⟩
  · have hread := (Lexer.readToken_of_steady escape commandOpen steady).1
    rw [ht] at hread
    exact Lexer.wellFormed_of_readToken (Prod.ext hread.symm rfl)
  · obtain ⟨l, hr, rfl⟩ := readCommandWith_eq_ok.mp hc
    obtain ⟨hread, hfollows⟩ := Lexer.readCommand_of_steady escape steady
    rw [hr] at hread hfollows
    obtain ⟨hreadable, hlast⟩ := Lexer.readable_of_readCommand (Prod.ext hread.symm rfl)
    exact ⟨hreadable.wellFormed, fun hnone => hfollows.unread.trans (hlast hnone)⟩

/-- With the escape set of the comma, `${ab-c},` is the reference to `ab` and a separator. -/
theorem reads_wellFormed_comma : ∃ (p : Parser Scanner) (t : Token) (c : Command),
    p = ofBytes (Utf8.encode "$\x7bab-c\x7d,") "s" (.ofChars [',']) ∧
      p.lexer.input.reader.Steady ∧
      (p.lexer.readToken p.escape false).1 = .ok (some t) ∧
      t.elements = [.reference ⟨"ab", some "-c"⟩, .separator (.other ',')] ∧
      (p.readCommandWith p.escape).1 = .ok (some c) ∧ c.terminator = some (.other ',') ∧
      t.WellFormed p.escape ∧ c.WellFormed p.escape := by
  let p := ofBytes (Utf8.encode "$\x7bab-c\x7d,") "s" (.ofChars [','])
  let v : Element := .reference ⟨"ab", some "-c"⟩
  let t : Token := ⟨[v, .separator (.other ',')]⟩
  let c : Command := ⟨[⟨[v]⟩], some (.other ','), ⟨"s", .start⟩⟩
  have steady : p.lexer.input.reader.Steady := ⟨rfl, nofun⟩
  have htoken : (p.lexer.readToken p.escape false).1 = .ok (some t) := by decide +kernel
  have hcommand : (p.readCommandWith p.escape).1 = .ok (some c) := by decide +kernel
  obtain ⟨ht, hc, -⟩ := reads_wellFormed p.escape false steady
  exact ⟨p, t, c, rfl, steady, htoken, rfl, hcommand, rfl, ht t _ (Prod.ext htoken rfl),
    (hc c _ (Prod.ext hcommand rfl)).1⟩

end Parser

end ShellScript
