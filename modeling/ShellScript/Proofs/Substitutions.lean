import ShellScript.Proofs.Passages
import ShellScript.Proofs.Scripts
import ShellScript.Proofs.Stretches

/-!
# Scripts as bodies of substitutions

The lexer leads the body reader along a script that it accepts, as long as the stretches of the script are
level (`Lexer.Leads`, with one theorem for each read). Such a script can stand in a substitution
(`substitutes_of_parseString`).
-/

namespace ShellScript

/-- Characters of names are inert. -/
theorem isInert_of_isNameChar {c : Char} (h : isNameChar c = true) : isInert c = true :=
  isInert_of_any (by decide) h

/-- The roles of characters that take nothing with them. -/
def Role.isText : Role → Bool
  | .safe | .plain | .blank | .separator _ => true
  | _ => false

/-- Characters that take nothing with them are inert. -/
theorem isInert_of_role {c : Char} {r : Role} (h : role .default c = r) (hr : r.isText = true) :
    isInert c = true :=
  isInert_of_any (p := fun c => (role .default c).isText) (by decide) (h ▸ hr)

namespace Lexer

/-- Where a lexer stands in a script, together with the body reader. -/
def Leads (script : List Char) (quoted : Bool) (l : Lexer Cursor) : Prop :=
  ∃ x, l.input.rest = Utf8.encodeChars x ∧ Along script quoted x

variable {script x : List Char} {quoted : Bool} {l l₁ l' : Lexer Cursor} {c : Char}

namespace Leads

/-- The next character is the first of what is left, and can be put back there. -/
theorem nextRune (h : Leads script quoted l) (hn : l.nextRune = (.ok (some c), l₁)) :
    ∃ y, Along script quoted (c :: y) ∧ l₁.input.rest = Utf8.encodeChars y ∧
      l₁.unreadRune.input.rest = Utf8.encodeChars (c :: y) := by
  obtain ⟨x, hx, halong⟩ := h
  obtain ⟨y, rfl, hy, hback⟩ := chars_of_nextRune hx hn
  exact ⟨y, halong, hy, hback⟩

/-- At the end of the input nothing is left of the script. -/
theorem nextRune_none (h : Leads script quoted l) (hn : l.nextRune = (.ok none, l₁)) :
    Along script quoted [] ∧ Leads script quoted l₁ := by
  obtain ⟨x, hx, halong⟩ := h
  obtain ⟨rfl, hl₁⟩ := nil_of_nextRune hx hn
  exact ⟨halong, [], hl₁, halong⟩

end Leads

/-! ## Expansions -/

/-- A name leads on. -/
theorem Leads.readName (h : Leads script quoted l) {first : Char} {name : String}
    (hr : l.readName first = (.ok name, l')) : Leads script quoted l' := by
  have hstep {name name' : String} {l l' : Lexer Cursor} (h : Leads script quoted l)
      (hmore : nameStep name l = (.ok (.more name'), l')) : Leads script quoted l' := by
    obtain ⟨c, hn, hc, -⟩ := nameStep_more hmore
    obtain ⟨y, halong, hy, -⟩ := h.nextRune hn
    exact ⟨y, hy, halong.inert (isInert_of_isNameChar hc)⟩
  obtain ⟨name', l₁, h₁, hlast⟩ := iterate_ok (P := fun _ l => Leads script quoted l) hstep h hr
  unfold nameStep at hlast
  split at hlast
  · cases hlast
  · rename_i hn
    cases hlast
    exact (h₁.nextRune_none hn).2
  · rename_i hn
    obtain ⟨y, halong, -, hback⟩ := h₁.nextRune hn
    split at hlast
    · cases hlast
    · cases hlast
      exact ⟨_, hback, halong⟩

/-- A body in braces behind its dollar sign. -/
theorem leads_of_readBraced (h : Along script quoted ('$' :: '{' :: x))
    (hx : l.input.rest = Utf8.encodeChars x) {dollar : Position} {v : VariableRef}
    (hr : l.readBraced dollar = (.ok v, l')) : Leads script quoted l' := by
  unfold readBraced at hr
  split at hr
  · cases hr
  · rename_i hbody
    obtain ⟨-, rfl⟩ := Prod.mk.inj hr
    obtain ⟨y, rfl, hy⟩ := chars_of_readBody hx hbody
    exact ⟨y, hy, h.braces (encloses_of_readBody hbody)⟩

/-- A substitution behind its dollar sign. -/
theorem leads_of_readSubstitution (h : Along script quoted ('$' :: '(' :: x))
    (hx : l.input.rest = Utf8.encodeChars x) {dollar : Position} {s : CommandSubstitution}
    (hr : l.readSubstitution dollar = (.ok s, l')) : Leads script quoted l' := by
  unfold readSubstitution at hr
  split at hr
  · cases hr
  · rename_i hnone
    exact (readBody_of_none hnone (readBody_of_readSubstitutionBody hr)).elim
  · rename_i c l₁ hn
    split at hr
    · cases hr
    · obtain ⟨-, -, -, hback⟩ := chars_of_nextRune hx hn
      have hbody := readBody_of_readSubstitutionBody hr
      obtain ⟨y, rfl, hy⟩ := chars_of_readBody hback hbody
      exact ⟨y, hy, h.parentheses (encloses_of_readBody hbody)⟩

/-- What a dollar sign introduces, behind the character that follows it. -/
theorem leads_of_readExpansion (h : Along script quoted ('$' :: c :: x))
    (hx : l.input.rest = Utf8.encodeChars x)
    (hback : l.unreadRune.input.rest = Utf8.encodeChars (c :: x)) {dollar : Position} {e : Expansion}
    (hr : l.readExpansion dollar c = (.ok e, l')) : Leads script quoted l' := by
  unfold readExpansion at hr
  split at hr
  · rename_i hc
    subst hc
    split at hr <;> cases hr
    rename_i hbraced
    exact leads_of_readBraced h hx hbraced
  rename_i hbrace
  split at hr
  · rename_i hc
    subst hc
    split at hr <;> cases hr
    rename_i hsub
    exact leads_of_readSubstitution h hx hsub
  rename_i hparenthesis
  split at hr
  · rename_i hc
    split at hr <;> cases hr
    rename_i hname
    -- the name is plain text to the body reader, so the dollar sign is passed alone
    have hbare : Along script quoted (c :: x) := h.dollar fun d hd => by
      cases hd
      exact ⟨hbrace, hparenthesis, not_isSpecialParameter_of_isNameStart hc⟩
    have hinert := isInert_of_isNameChar (isNameChar_of_isNameStart hc)
    exact Leads.readName ⟨x, hx, hbare.inert hinert⟩ hname
  split at hr
  · rename_i hc
    cases hr
    exact ⟨x, hx, h.special hc⟩
  · rename_i hspecial
    cases hr
    refine ⟨c :: x, hback, h.dollar fun d hd => ?_⟩
    cases hd
    exact ⟨hbrace, hparenthesis, by simpa using hspecial⟩

/-- A dollar sign between double quotes leads on with what it introduces. -/
theorem leads_of_readInnerDollar (h : Along script quoted ('$' :: x))
    (hx : l.input.rest = Utf8.encodeChars x) {dollar : Position} {e : Expansion}
    (hr : l.readInnerDollar dollar = (.ok e, l')) : Leads script quoted l' := by
  unfold readInnerDollar at hr
  split at hr
  · cases hr
  · rename_i hn
    cases hr
    obtain ⟨rfl, hl'⟩ := nil_of_nextRune hx hn
    exact ⟨[], hl', h.dollar (by simp)⟩
  · rename_i hn
    obtain ⟨y, rfl, hy, hback⟩ := chars_of_nextRune hx hn
    exact leads_of_readExpansion h hy hback hr

/-! ## Quotes -/

/-- A backslash with the character that it takes the meaning of. -/
theorem leads_of_backslash (h : Along script quoted ('\\' :: x))
    (hx : l.input.rest = Utf8.encodeChars x) (hn : l.nextPastReturn = (.ok (some c), l')) :
    Leads script quoted l' := by
  obtain ⟨y, hrest, hy⟩ := chars_of_nextPastReturn hx hn
  exact ⟨y, hy, h.backslash hrest⟩

/-- A raw quote leads on to behind its end. -/
theorem leads_of_readRawQuote (h : Along script false ('\'' :: x))
    (hx : l.input.rest = Utf8.encodeChars x) {quote : QuoteKind} {opening : Position}
    {bytes : List UInt8} (hr : l.readRawQuote quote opening = (.ok bytes, l')) :
    Leads script false l' := by
  obtain ⟨cs, y, rfl, hcs, hy⟩ := chars_of_readRawQuote hx hr
  exact ⟨y, hy, h.singleQuotes hcs⟩

/-- One more character inside double quotes. The last one closes them. -/
theorem Leads.doubleQuoteStep (h : Leads script true l) {opening : Position} {g : Gathering}
    {p : Progress Gathering (List Element)} (hr : l.doubleQuoteStep opening g = (.ok p, l')) :
    match p with
    | .more _ => Leads script true l'
    | .done _ => Leads script false l' := by
  cases doubleQuoteStep_ok hr with
  | closes next =>
    obtain ⟨x, halong, hx, -⟩ := h.nextRune next
    exact ⟨x, hx, halong.doubleQuote⟩
  | dollar next read =>
    obtain ⟨x, halong, hx, -⟩ := h.nextRune next
    exact leads_of_readInnerDollar halong hx read
  | bare next read =>
    obtain ⟨x, halong, hx, -⟩ := h.nextRune next
    exact leads_of_readInnerDollar halong hx read
  | escapes next past =>
    obtain ⟨x, halong, hx, -⟩ := h.nextRune next
    exact leads_of_backslash halong hx past
  | plain next quote dollar backslash =>
    obtain ⟨x, halong, hx, -⟩ := h.nextRune next
    exact ⟨x, hx, halong.inner quote dollar backslash⟩

/-- Double quotes lead on to behind their end. -/
theorem Leads.readDoubleQuoted (h : Leads script true l) {opening : Position} {es : List Element}
    (hr : l.readDoubleQuoted opening = (.ok es, l')) : Leads script false l' := by
  obtain ⟨g, l₁, h₁, hlast⟩ := iterate_ok (P := fun _ l => Leads script true l)
    (fun h hmore => h.doubleQuoteStep hmore) h hr
  exact h₁.doubleQuoteStep hlast

/-! ## Words -/

/-- What a dollar sign outside quotes introduces. -/
theorem leads_of_readDollar (h : Along script false ('$' :: x))
    (hx : l.input.rest = Utf8.encodeChars x) {dollar : Position} {e : Expansion}
    (hr : l.readDollar dollar = (.ok e, l')) : Leads script false l' := by
  unfold readDollar at hr
  split at hr
  · cases hr
  · rename_i hn
    cases hr
    obtain ⟨rfl, hl'⟩ := nil_of_nextRune hx hn
    exact ⟨[], hl', h.dollar (by simp)⟩
  rename_i c l₁ hn
  obtain ⟨y, rfl, hy, hback⟩ := chars_of_nextRune hx hn
  split at hr
  · rename_i hc
    subst hc
    -- to the body reader these are single quotes like any others
    have hquote : Along script false ('\'' :: y) := h.dollar (by simp; decide)
    split at hr <;> cases hr
    rename_i hansi
    unfold readAnsiCQuoted at hansi
    split at hansi <;> cases hansi
    rename_i hraw
    exact leads_of_readRawQuote hquote hy hraw
  split at hr
  · rename_i hc
    subst hc
    have hquote : Along script false ('"' :: y) := h.dollar (by simp; decide)
    split at hr <;> cases hr
    rename_i hdouble
    exact Leads.readDoubleQuoted ⟨y, hy, hquote.doubleQuote⟩ hdouble
  · exact leads_of_readExpansion h hy hback hr

/-- A pipe, and the second one of a double pipe. -/
theorem Leads.readSeparator (h : Leads script false l) {here : Position} {hasOperand : Bool}
    {s s' : Separator} (hr : l.readSeparator here hasOperand s = (.ok s', l')) :
    Leads script false l' := by
  unfold Lexer.readSeparator at hr
  split at hr
  · cases hasOperand with
    | false =>
      unfold readPipe at hr
      cases hr
    | true =>
      obtain ⟨x, hx, halong⟩ := h
      obtain ⟨y, l₁, rfl, hpipe, htakes⟩ | ⟨-, hpipe⟩ := readPipe_chars here hx
      · rw [hr] at hpipe
        cases hpipe
        have hinert : isInert '|' = true := by decide
        exact ⟨y, htakes.rest_eq (by rw [hx, ← Utf8.encodeChars_append]; rfl), halong.inert hinert⟩
      · rw [hr] at hpipe
        cases hpipe
        exact ⟨x, hx, halong⟩
  · cases hr
    exact h

/-- One more character of a token, with all that it introduces. -/
theorem leads_of_wordRune (h : Along script false (c :: x)) (hx : l.input.rest = Utf8.encodeChars x)
    {commandOpen : Bool} {g : Gathering} {here : Position} {p : Progress Gathering (Option Token)}
    (hr : l.wordRune .default commandOpen g here c = (.ok p, l')) : Leads script false l' := by
  -- without anything read behind it, the character must be one that opens nothing
  have hinert (hc : isInert c = true) : Leads script false l := ⟨x, hx, h.inert hc⟩
  cases wordRune_ok hr with
  | joins meaning => exact hinert (isInert_of_role meaning rfl)
  | begins meaning => exact hinert (isInert_of_role meaning rfl)
  | separates meaning read => exact (hinert (isInert_of_role meaning rfl)).readSeparator read
  | leads meaning => exact hinert (isInert_of_role meaning rfl)
  | ends meaning => exact hinert (isInert_of_role meaning rfl)
  | continues meaning next =>
    cases eq_of_role meaning
    exact leads_of_backslash h hx next
  | escapes meaning next =>
    cases eq_of_role meaning
    exact leads_of_backslash h hx next
  | single meaning read =>
    cases eq_of_role meaning
    unfold readSingleQuoted at read
    split at read <;> cases read
    rename_i hraw
    exact leads_of_readRawQuote h hx hraw
  | double meaning read =>
    cases eq_of_role meaning
    exact Leads.readDoubleQuoted ⟨x, hx, h.doubleQuote⟩ read
  | dollar meaning read =>
    cases eq_of_role meaning
    exact leads_of_readDollar h hx read
  | bare meaning read =>
    cases eq_of_role meaning
    exact leads_of_readDollar h hx read
  | atEnd meaning read =>
    cases eq_of_role meaning
    exact leads_of_readDollar h hx read
  | comment meaning skipped =>
    cases eq_of_role meaning
    obtain ⟨cs, y, rfl, hcs, hy, hrest⟩ := chars_of_skipComment hx skipped
    exact ⟨y, hrest, h.comment hcs hy⟩
  | last meaning skipped =>
    cases eq_of_role meaning
    obtain ⟨cs, y, rfl, hcs, hy, hrest⟩ := chars_of_skipComment hx skipped
    exact ⟨y, hrest, h.comment hcs hy⟩

/-- A step within a token leads on, outside quotes. -/
theorem Leads.wordStep (h : Leads script false l) {commandOpen : Bool} {g : Gathering}
    {p : Progress Gathering (Option Token)}
    (hr : l.wordStep .default commandOpen g = (.ok p, l')) : Leads script false l' := by
  unfold Lexer.wordStep at hr
  split at hr
  · cases hr
  · rename_i hn
    cases hr
    exact (h.nextRune_none hn).2
  · rename_i hn
    obtain ⟨x, halong, hx, -⟩ := h.nextRune hn
    exact leads_of_wordRune halong hx hr

/-- So does a token. -/
theorem Leads.readToken (h : Leads script false l) {commandOpen : Bool} {t : Option Token}
    (hr : l.readToken .default commandOpen = (.ok t, l')) : Leads script false l' := by
  obtain ⟨g, l₁, h₁, hlast⟩ := iterate_ok (P := fun _ l => Leads script false l)
    (fun h hmore => h.wordStep hmore) (l := { l with tokenStart := l.position }) h hr
  exact h₁.wordStep hlast

/-! ## Commands -/

/-- So does a step of a command. -/
theorem Leads.commandStep (h : Leads script false l) {a : Assembly}
    {p : Progress Assembly (Option Command)}
    (hr : l.commandStep .default a = (.ok p, l')) : Leads script false l' := by
  unfold Lexer.commandStep at hr
  split at hr
  · cases hr
  · rename_i ht
    have h₁ := h.readToken ht
    split at hr <;> cases hr <;> exact h₁
  · rename_i ht
    have h₁ := h.readToken ht
    dsimp only at hr
    split at hr
    · cases hr
      exact h₁
    · split at hr
      · cases hr
      · split at hr <;> cases hr <;> exact h₁

/-- So does a command. -/
theorem Leads.readCommand (h : Leads script false l) {d : Option Command}
    (hr : l.readCommand .default = (.ok d, l')) : Leads script false l' := by
  obtain ⟨a, l₁, h₁, hlast⟩ := iterate_ok (P := fun _ l => Leads script false l)
    (fun h hmore => h.commandStep hmore) h hr
  exact h₁.commandStep hlast

end Lexer

/-! ## Scripts -/

/-- A script that is read to its end leads the body reader to where nothing is open. -/
theorem Parser.encloses_of_items {p : Parser Cursor} {script : List Char} {cs : List Command}
    (hescape : p.escape = .default) (hfailed : p.failed = false)
    (hleads : p.lexer.Leads script false) (h : p.items.1 = cs.map .ok) :
    Brackets.parentheses.Encloses script := by
  induction cs generalizing p with
  | nil =>
    obtain ⟨l, hr⟩ := readCommand_of_items_nil hfailed h
    rw [hescape] at hr
    obtain ⟨x, hx, halong⟩ := hleads.readCommand hr
    rw [Lexer.rest_of_readCommand hr] at hx
    cases Utf8.encodeChars_eq_nil.mp hx.symm
    exact halong.encloses
  | cons c cs ih =>
    obtain ⟨l, hr, hrest⟩ := readCommand_of_items h
    rw [hescape] at hr
    exact ih (p := { p with lexer := l, failed := false }) hescape rfl (hleads.readCommand hr) hrest

/-- A parenthesis cannot begin a command. -/
theorem Lexer.readCommand_parenthesis {l : Lexer Cursor} {bytes : List UInt8}
    (h : l.input.rest = String.utf8EncodeChar '(' ++ bytes) :
    ∃ e l', l.readCommand .default = (.error e, l') := by
  have htoken : ∃ e l', l.readToken .default false = (.error e, l') := by
    have hrole : role .default '(' = .unsupported "subshell or function syntax" := by decide
    obtain ⟨l₁, hn, -⟩ := nextRune_encoded (l := { l with tokenStart := l.position }) h
    rw [readToken, iterate_eq]
    unfold wordStep wordRune
    simp only [hn, hrole]
    exact ⟨_, _, rfl⟩
  obtain ⟨e, l', ht⟩ := htoken
  refine ⟨e, l', ?_⟩
  rw [readCommand, iterate_eq]
  unfold commandStep
  simp only [List.isEmpty_nil, Bool.not_true, ht]

/-- A script that is accepted does not begin with a parenthesis. -/
theorem head?_of_parseString {s filename : String} {cs : List Command}
    (h : parseString s filename = .ok cs) : s.toList.head? ≠ some '(' := by
  intro hhead
  obtain ⟨y, hy⟩ := List.head?_eq_some_iff.mp hhead
  have hrest : (Cursor.ofString s).rest = String.utf8EncodeChar '(' ++ Utf8.encodeChars y := by
    change Utf8.encodeChars s.toList = _
    rw [hy, Utf8.encodeChars_cons]
  obtain ⟨e, l', hr⟩ := Lexer.readCommand_parenthesis
    (l := .ofInput (Cursor.ofString s) filename) hrest
  have hitems : (Parser.ofInput (Cursor.ofString s) filename).items.1 = cs.map .ok :=
    Parser.collect_eq_ok.mp h
  have herror : (Parser.ofInput (Cursor.ofString s) filename).lexer.readCommand
      (Parser.ofInput (Cursor.ofString s) filename).escape = (.error e, l') := hr
  rw [Parser.items_of_readCommand rfl, herror] at hitems
  cases cs <;> simp at hitems

/-- Whether a script between the parentheses of a substitution is read as that substitution: it is the
only token, with that script, and nothing is left behind it. -/
def Substitutes (filename s : String) : Prop :=
  ∃ origin l₁ l₂,
    (Lexer.ofInput (Cursor.ofString ("$(" ++ s ++ ")")) filename).readToken .default false =
      (.ok (some ⟨[.substitution ⟨s, origin⟩]⟩), l₁) ∧
    l₁.readToken .default true = (.ok none, l₂) ∧ l₁.input.rest = []

/-- A script is read as a substitution if parentheses enclose it. -/
theorem substitutes_iff_encloses (filename : String) {s : String}
    (hhead : s.toList.head? ≠ some '(') :
    Substitutes filename s ↔ Brackets.parentheses.Encloses s.toList := by
  constructor
  · rintro ⟨origin, l₁, l₂, htoken, -, -⟩
    have hreadable := (Lexer.readableToken_of_readToken htoken).word
    exact (hreadable (.substitution ⟨s, origin⟩) (List.mem_singleton.mpr rfl)).1
  · -- the source of a substitution is read back as that substitution
    intro h
    let l : Lexer Cursor := .ofInput (Cursor.ofString ("$(" ++ s ++ ")")) filename
    have hrest : ({ l with tokenStart := l.position } : Lexer Cursor).input.rest =
        Utf8.encode (Element.substitution ⟨s, l.location⟩).toSource ++ [] := by
      rw [List.append_nil]
      rfl
    have hdollar : EscapeSet.default.contains '$' = false := by decide
    obtain ⟨origin, l₁, hr, hl₁⟩ := Lexer.readOn_substitution false [] hdollar
      (s := ⟨s, l.location⟩) ⟨h, hhead⟩ hrest
    obtain ⟨l₂, htoken, hl₂⟩ := Lexer.readOn_end .default false [.substitution ⟨s, origin⟩] hl₁
    obtain ⟨l₃, hnone, -⟩ := Lexer.readToken_end .default true hl₂
    exact ⟨origin, l₂, l₃, hr.trans htoken, hnone, hl₂⟩

/-- A script that is accepted stands in a substitution exactly if parentheses enclose it. It does so if its
stretches are level: comments, expansions in braces, substitutions inside double quotes, and characters
behind a backslash and a carriage return leave the body reader where it stood. -/
theorem substitutes_of_parseString {s filename : String} {cs : List Command}
    (h : parseString s filename = .ok cs) (label : String) :
    (Substitutes label s ↔ Brackets.parentheses.Encloses s.toList) ∧
      ((∀ p ∈ stretches false s.toList, p.Level) → Substitutes label s) := by
  have hiff := substitutes_iff_encloses label (head?_of_parseString h)
  refine ⟨hiff, fun hlevel => hiff.mpr ?_⟩
  have hleads : (Lexer.ofInput (Cursor.ofString s) filename).Leads s.toList false :=
    ⟨s.toList, rfl, .start hlevel⟩
  exact Parser.encloses_of_items (p := .ofInput (Cursor.ofString s) filename) rfl rfl hleads
    (Parser.collect_eq_ok.mp h)

/-- The substitution inside the double quotes of `echo "$(dirname "$0")"` closes the quotes that it opens. -/
theorem substitutes_of_parseString_dirname :
    ∃ (s : String) (c : Command), s = "echo \"$(dirname \"$0\")\"" ∧
      stretches false s.toList = [⟨true, "dirname \"$0\"".toList⟩] ∧
      parseString s "s" = .ok [c] ∧ (∀ p ∈ stretches false s.toList, p.Level) ∧
      Brackets.parentheses.Encloses s.toList ∧ Substitutes "t" s := by
  let s := "echo \"$(dirname \"$0\")\""
  let c : Command := ⟨[⟨[.literal ⟨"echo", ⟨"s", .start⟩⟩]⟩,
    ⟨[.substitution ⟨"dirname \"$0\"", ⟨"s", ⟨6, 1, 7⟩⟩⟩]⟩], none, ⟨"s", .start⟩⟩
  have hs : parseString s "s" = .ok [c] := by decide +kernel
  have hlevel : ∀ p ∈ stretches false s.toList, p.Level := by decide +kernel
  obtain ⟨hiff, hsubstitutes⟩ := substitutes_of_parseString hs "t"
  have h := hsubstitutes hlevel
  exact ⟨s, c, rfl, by decide +kernel, hs, hlevel, hiff.mp h, h⟩

/-- A script that is accepted, that has no `#` or ends in a newline, and that still cannot stand in a
substitution. -/
def Misread (s : String) : Prop :=
  (∃ cs, parseString s "s" = .ok cs) ∧ ('#' ∈ s.toList → s.toList.getLast? = some '\n') ∧
    ¬Substitutes "s" s

/-- A script that is accepted and not enclosed cannot stand in a substitution. -/
theorem misread_of_not_encloses {s : String} (h : (parseString s "s").isOk = true)
    (hcomments : '#' ∈ s.toList → s.toList.getLast? = some '\n')
    (hencloses : ¬Brackets.parentheses.Encloses s.toList) : Misread s := by
  cases hs : parseString s "s" with
  | error e =>
    rw [hs] at h
    cases h
  | ok cs =>
    have hiff := substitutes_iff_encloses "s" (head?_of_parseString hs)
    exact ⟨⟨cs, hs⟩, hcomments, fun hsubstitutes => hencloses (hiff.mp hsubstitutes)⟩

/-- One script for each kind of stretch, where that stretch is not level. -/
theorem misread_stretches :
    Misread "$\x7bx:-)\x7d" ∧ Misread "#)\n" ∧ Misread "\"$(\")\")\"" ∧ Misread "\\\r)" := by
  refine ⟨?_, ?_, ?_, ?_⟩ <;> exact misread_of_not_encloses (by decide +kernel) (by decide +kernel)
    (by decide +kernel)

end ShellScript
