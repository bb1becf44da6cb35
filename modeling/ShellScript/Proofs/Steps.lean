import ShellScript.Parser

/-!
# What a step can do

Inversions of the steps of the loops over bodies, names, double quotes, tokens and commands. Each says once
what a step comes to when it succeeds. What holds along a loop is proved from these. For an unquoted character
`wordRune_eq` says what it comes to in every case: something behind it is read (`readSequel`), and then the
character acts on that (`act`).
-/

namespace ShellScript.Lexer

variable {σ : Type} [Input σ] {l l' : Lexer σ}

/-! ## Bodies and names -/

section

variable {pair : Brackets} {construct body : String} {state state' : Nesting × String}

/-- A body goes on behind a character that does not close it, which it then holds. -/
theorem bodyStep_more (h : bodyStep pair construct state l = (.ok (.more state'), l')) :
    ∃ c, l.nextRune = (.ok (some c), l') ∧ state.1.feed pair c = some state'.1 ∧
      state'.2 = state.2.push c := by
  unfold bodyStep at h
  split at h
  · cases h
  · cases h
  · rename_i c l₁ hn
    split at h
    · cases h
    · rename_i nesting hfeed
      cases h
      exact ⟨c, hn, hfeed, rfl⟩

/-- A body is over with the bracket that closes it, which it does not hold. -/
theorem bodyStep_done (h : bodyStep pair construct state l = (.ok (.done body), l')) :
    ∃ c, l.nextRune = (.ok (some c), l') ∧ state.1.feed pair c = none ∧ body = state.2 := by
  unfold bodyStep at h
  split at h
  · cases h
  · cases h
  · rename_i c l₁ hn
    split at h
    · rename_i hfeed
      cases h
      exact ⟨c, hn, hfeed, rfl⟩
    · cases h

/-- A name goes on behind a character of names. -/
theorem nameStep_more {name name' : String} (h : nameStep name l = (.ok (.more name'), l')) :
    ∃ c, l.nextRune = (.ok (some c), l') ∧ isNameChar c = true ∧ name' = name.push c := by
  unfold nameStep at h
  split at h
  · cases h
  · cases h
  · rename_i c l₁ hn
    split at h
    · rename_i hc
      cases h
      exact ⟨c, hn, hc, rfl⟩
    · cases h

/-- A name that is over is what was read before: the character behind it is put back. -/
theorem nameStep_done {name name' : String} (h : nameStep name l = (.ok (.done name'), l')) :
    name' = name := by
  unfold nameStep at h
  split at h
  · cases h
  · cases h
    rfl
  · split at h <;> cases h
    rfl

end

/-! ## Double quotes -/

/-- What a step between double quotes comes to when it succeeds. -/
inductive QuoteDoes (opening : Position) (g : Gathering) (l : Lexer σ) :
    Progress Gathering (List Element) → Lexer σ → Prop
  | closes {l₁} (next : l.nextRune = (.ok (some '"'), l₁)) :
    QuoteDoes opening g l (.done (closeQuotes (l.place opening) (g.settle l.filename))) l₁
  | dollar {parts l₁ l₂} (next : l.nextRune = (.ok (some '$'), l₁))
    (read : l₁.readInnerDollar l.position = (.ok (.elements parts), l₂)) :
    QuoteDoes opening g l (.more { elements := g.settle l.filename ++ parts }) l₂
  | bare {l₁ l₂} (next : l.nextRune = (.ok (some '$'), l₁))
    (read : l₁.readInnerDollar l.position = (.ok .bare, l₂)) : QuoteDoes opening g l
      (.more (Gathering.push { elements := g.settle l.filename } '$' l.position)) l₂
  | escapes {c l₁ l₂} (next : l.nextRune = (.ok (some '\\'), l₁))
    (past : l₁.nextPastReturn = (.ok (some c), l₂)) :
    QuoteDoes opening g l (.more (protect g c l.position)) l₂
  | plain {c l₁} (next : l.nextRune = (.ok (some c), l₁)) (quote : c ≠ '"') (dollar : c ≠ '$')
    (backslash : c ≠ '\\') : QuoteDoes opening g l (.more (g.push c l.position)) l₁

/-- What a step between double quotes comes to is one of these. -/
theorem doubleQuoteStep_ok {opening : Position} {g : Gathering} {p : Progress Gathering (List Element)}
    (h : doubleQuoteStep opening g l = (.ok p, l')) : QuoteDoes opening g l p l' := by
  unfold doubleQuoteStep at h
  dsimp only at h
  split at h
  · cases h
  · cases h
  rename_i c l₁ hn
  by_cases hquote : c = '"'
  · subst hquote
    cases h
    exact .closes hn
  by_cases hdollar : c = '$'
  · subst hdollar
    rw [if_neg hquote, if_pos rfl] at h
    split at h <;> cases h <;> rename_i hread
    · exact .bare hn hread
    · exact .dollar hn hread
  by_cases hbacktick : c = '`'
  · rw [if_neg hquote, if_neg hdollar, if_pos hbacktick] at h
    cases h
  rw [if_neg hquote, if_neg hdollar, if_neg hbacktick] at h
  by_cases hbackslash : c = '\\'
  · subst hbackslash
    rw [if_pos rfl] at h
    split at h <;> cases h
    rename_i hpast
    exact .escapes hn hpast
  · rw [if_neg hbackslash] at h
    cases h
    exact .plain hn hquote hdollar hbackslash

/-! ## Tokens -/

/-- What an unquoted character takes of what stands behind it. -/
inductive Sequel
  | nothing
  | separator (s : Separator)
  /-- What stands behind a backslash. -/
  | escaped (c : Option Char)
  /-- A quote, or what a dollar sign introduces. -/
  | expansion (e : Expansion)
  /-- A comment; whether its line ends. -/
  | comment (found : Bool)

/-- A read, and after it what follows on its answer. -/
def andThen {α β : Type} (r : Read σ α) (next : α → Lexer σ → Read σ β) : Read σ β :=
  match r with
  | (.error e, l) => (.error e, l)
  | (.ok a, l) => next a l

/-- What follows succeeds only after a read that did. -/
theorem andThen_ok {τ α β : Type} {r : Read τ α} {next : α → Lexer τ → Read τ β} {b : β} {l' : Lexer τ}
    (h : andThen r next = (.ok b, l')) : ∃ a l₁, r = (.ok a, l₁) ∧ next a l₁ = (.ok b, l') := by
  obtain ⟨e | a, l₁⟩ := r
  · cases h
  · exact ⟨a, l₁, rfl, h⟩

/-- Reads what an unquoted character takes of what stands behind it. -/
def readSequel (escape : EscapeSet) (hasOperand : Bool) (here : Position) (c : Char) (l : Lexer σ) :
    Read σ Sequel :=
  match role escape c with
  | .safe | .plain | .blank => (.ok .nothing, l)
  | .separator s => andThen (l.readSeparator here hasOperand s) fun s l => (.ok (.separator s), l)
  | .backslash => andThen l.nextPastReturn fun d l => (.ok (.escaped d), l)
  | .singleQuote => andThen (l.readSingleQuoted here) fun literal l =>
    (.ok (.expansion (.elements [.literal literal])), l)
  | .doubleQuote => andThen (l.readDoubleQuoted here) fun parts l => (.ok (.expansion (.elements parts)), l)
  | .dollar => andThen (l.readDollar here) fun e l => (.ok (.expansion e), l)
  | .comment => andThen l.skipComment fun found l => (.ok (.comment found), l)
  | .unsupported feature => (.error (.unsupported feature (l.place here)), l)
  | .misplaced => (.error (.unexpectedToken c.toString (l.place here)), l)

/-- What an unquoted character comes to after what was read behind it, in a text with this label. -/
def act (escape : EscapeSet) (label : String) (g : Gathering) (here : Position) (c : Char)
    (sequel : Sequel) (l : Lexer σ) : Read σ (Progress Gathering (Option Token)) :=
  let es := g.settle label
  match sequel with
  | .nothing =>
    match role escape c with
    | .safe => (.ok (.more (g.push c here)), l)
    | .blank =>
      if es.isEmpty then (.ok (.more {}), { l with tokenStart := l.position })
      else (.ok (.done (some ⟨es⟩)), l)
    | _ => (.ok (.more (Gathering.push { elements := es } c here)), l)
  | .separator s => (.ok (.done (some ⟨es ++ [.separator s]⟩)), l)
  | .escaped none => (.error (.unexpectedEof "backslash" l.location), l)
  | .escaped (some d) =>
    if d = '\n' then (.ok (.more { elements := es }), l)
    else (.ok (.more (Gathering.push { elements := es } d here)), l)
  | .expansion (.elements parts) => (.ok (.more { elements := es ++ parts }), l)
  | .expansion .bare => (.ok (.more (Gathering.push { elements := es } '$' here)), l)
  | .expansion .atEnd => (.ok (.done (some ⟨es ++ [.literal ⟨"$", ⟨label, here⟩⟩]⟩)), l)
  | .comment found =>
    if found && es.isEmpty then (.ok (.more {}), l) else (.ok (.done (Token.ofElements? es)), l)

/-- An unquoted character reads what stands behind it and then acts on that, whether or not it succeeds. -/
theorem wordRune_eq (escape : EscapeSet) (commandOpen : Bool) (g : Gathering) (here : Position) (c : Char)
    (l : Lexer σ) :
    wordRune escape commandOpen g here c l =
      andThen (readSequel escape (!(g.settle l.filename).isEmpty || commandOpen) here c l)
        (act escape l.filename g here c) := by
  unfold wordRune readSequel
  dsimp only
  -- on either side the same is read, and no reading changes the label that the text is settled with
  cases hrole : role escape c with
  | safe =>
    unfold act andThen
    simp only [hrole]
  | plain =>
    unfold act andThen
    simp only [hrole]
  | blank =>
    unfold act andThen
    simp only [hrole]
  | separator s =>
    dsimp only
    rcases l.readSeparator here (!(g.settle l.filename).isEmpty || commandOpen) s with ⟨e | s, l₁⟩ <;> rfl
  | backslash =>
    dsimp only
    rcases l.nextPastReturn with ⟨e | _ | d, l₁⟩
    · rfl
    · rfl
    · by_cases hd : d = '\n'
      · subst hd
        rfl
      · unfold act andThen
        simp [hd]
  | singleQuote =>
    dsimp only
    rcases l.readSingleQuoted here with ⟨e | literal, l₁⟩ <;> rfl
  | doubleQuote =>
    dsimp only
    rcases l.readDoubleQuoted here with ⟨e | parts, l₁⟩ <;> rfl
  | dollar =>
    dsimp only
    rcases l.readDollar here with ⟨e | _ | _ | _, l₁⟩ <;> rfl
  | comment =>
    dsimp only
    rcases l.skipComment with ⟨e | found, l₁⟩ <;> rfl
  | unsupported feature => rfl
  | misplaced => rfl

/-- What an unquoted character comes to when that succeeds. -/
inductive RuneDoes (escape : EscapeSet) (g : Gathering) (here : Position) (c : Char) (l : Lexer σ) :
    Progress Gathering (Option Token) → Lexer σ → Prop
  | joins (meaning : role escape c = .safe) : RuneDoes escape g here c l (.more (g.push c here)) l
  | begins (meaning : role escape c = .plain) : RuneDoes escape g here c l
      (.more (Gathering.push { elements := g.settle l.filename } c here)) l
  | separates {s s' hasOperand l₁} (meaning : role escape c = .separator s)
    (read : readSeparator here hasOperand s l = (.ok s', l₁)) :
    RuneDoes escape g here c l (.done (some ⟨g.settle l.filename ++ [.separator s']⟩)) l₁
  /-- A blank before the token. -/
  | leads (meaning : role escape c = .blank) (fresh : g.settle l.filename = []) :
    RuneDoes escape g here c l (.more {}) { l with tokenStart := l.position }
  | ends (meaning : role escape c = .blank) (begun : g.settle l.filename ≠ []) :
    RuneDoes escape g here c l (.done (some ⟨g.settle l.filename⟩)) l
  | continues {l₁} (meaning : role escape c = .backslash)
    (next : l.nextPastReturn = (.ok (some '\n'), l₁)) :
    RuneDoes escape g here c l (.more { elements := g.settle l.filename }) l₁
  | escapes {d l₁} (meaning : role escape c = .backslash) (next : l.nextPastReturn = (.ok (some d), l₁))
    (other : d ≠ '\n') : RuneDoes escape g here c l
      (.more (Gathering.push { elements := g.settle l.filename } d here)) l₁
  | single {literal l₁} (meaning : role escape c = .singleQuote)
    (read : l.readSingleQuoted here = (.ok literal, l₁)) :
    RuneDoes escape g here c l (.more { elements := g.settle l.filename ++ [.literal literal] }) l₁
  | double {parts l₁} (meaning : role escape c = .doubleQuote)
    (read : l.readDoubleQuoted here = (.ok parts, l₁)) :
    RuneDoes escape g here c l (.more { elements := g.settle l.filename ++ parts }) l₁
  | dollar {parts l₁} (meaning : role escape c = .dollar)
    (read : l.readDollar here = (.ok (.elements parts), l₁)) :
    RuneDoes escape g here c l (.more { elements := g.settle l.filename ++ parts }) l₁
  | bare {l₁} (meaning : role escape c = .dollar) (read : l.readDollar here = (.ok .bare, l₁)) :
    RuneDoes escape g here c l
      (.more (Gathering.push { elements := g.settle l.filename } '$' here)) l₁
  /-- A dollar sign at the end of the input. -/
  | atEnd {l₁} (meaning : role escape c = .dollar) (read : l.readDollar here = (.ok .atEnd, l₁)) :
    RuneDoes escape g here c l
      (.done (some ⟨g.settle l.filename ++ [.literal ⟨"$", l.place here⟩]⟩)) l₁
  /-- A comment before the token, on a line that ends. -/
  | comment {l₁} (meaning : role escape c = .comment) (skipped : l.skipComment = (.ok true, l₁))
    (fresh : g.settle l.filename = []) : RuneDoes escape g here c l (.more {}) l₁
  | last {found l₁} (meaning : role escape c = .comment) (skipped : l.skipComment = (.ok found, l₁))
    (unended : g.settle l.filename = [] → found = false) :
    RuneDoes escape g here c l (.done (Token.ofElements? (g.settle l.filename))) l₁

/-- What an unquoted character comes to when that succeeds is one of these. -/
theorem wordRune_ok {escape : EscapeSet} {commandOpen : Bool} {g : Gathering} {here : Position} {c : Char}
    {p : Progress Gathering (Option Token)}
    (h : wordRune escape commandOpen g here c l = (.ok p, l')) : RuneDoes escape g here c l p l' := by
  unfold wordRune at h
  dsimp only at h
  -- one case for each role, and in it one for each result of what is read
  split at h <;> rename_i hrole
  · cases h
    exact .joins hrole
  · cases h
    exact .begins hrole
  · split at h <;> cases h
    rename_i hsep
    exact .separates hrole hsep
  · split at h <;> cases h
    · rename_i hnone
      exact .leads hrole (by simpa using hnone)
    · rename_i hsome
      exact .ends hrole (by simpa using hsome)
  · split at h <;> cases h
    · rename_i hnext
      exact .continues hrole hnext
    · rename_i hother hnext
      exact .escapes hrole hnext fun hnewline => hother (by rw [hnewline])
  · split at h <;> cases h
    rename_i hread
    exact .single hrole hread
  · split at h <;> cases h
    rename_i hread
    exact .double hrole hread
  · split at h <;> cases h <;> rename_i hread
    · exact .dollar hrole hread
    · exact .bare hrole hread
    · exact .atEnd hrole hread
  · split at h
    · cases h
    · rename_i found l₁ hskip
      split at h <;> cases h <;> rename_i hfound
      · simp only [Bool.and_eq_true, List.isEmpty_iff] at hfound
        exact .comment hrole (by rw [hskip, hfound.1]) hfound.2
      · exact .last hrole hskip fun hnone => by simpa [hnone] using hfound
  · cases h
  · cases h

/-- How a token ends, and as what, when these elements were read before. -/
inductive WordEnds (escape : EscapeSet) (es : List Element) (l l' : Lexer σ) : Option Token → Prop
  | input (ended : l.nextRune = (.ok none, l')) : WordEnds escape es l l' (Token.ofElements? es)
  /-- After a comment on an empty word, only the end of the input ends the token. -/
  | comment {l₁ : Lexer σ} {found} (skipped : l₁.skipComment = (.ok found, l'))
    (last : es = [] → found = false) : WordEnds escape es l l' (Token.ofElements? es)
  | blank (word : es ≠ []) : WordEnds escape es l l' (some ⟨es⟩)
  | separator {c} {l₁ : Lexer σ} {hasOperand s s'} (next : l.nextRune = (.ok (some c), l₁))
    (meaning : role escape c = .separator s)
    (read : readSeparator l.position hasOperand s l₁ = (.ok s', l')) :
    WordEnds escape es l l' (some ⟨es ++ [.separator s']⟩)
  /-- A dollar sign at the end of the input stands for itself. -/
  | dollar (literal : Literal) : WordEnds escape es l l' (some ⟨es ++ [.literal literal]⟩)

/-- A token that is over ended in one of these ways. -/
theorem wordStep_done {escape : EscapeSet} {commandOpen : Bool} {g : Gathering} {t : Option Token}
    (h : wordStep escape commandOpen g l = (.ok (.done t), l')) :
    ∃ filename, WordEnds escape (g.settle filename) l l' t := by
  unfold wordStep at h
  split at h
  · cases h
  · rename_i hn
    cases h
    exact ⟨_, .input hn⟩
  · rename_i c l₁ hn
    refine ⟨l₁.filename, ?_⟩
    cases wordRune_ok h with
    | separates meaning read => exact .separator hn meaning read
    | ends _ hsome => exact .blank hsome
    | atEnd => exact .dollar _
    | last _ skipped hlast => exact .comment skipped hlast

/-! ## Commands -/

/-- A token that does not end a command adds its word. -/
theorem commandStep_more {escape : EscapeSet} {a a' : Assembly}
    (h : commandStep escape a l = (.ok (.more a'), l')) :
    ∃ t l₁, l.readToken escape (!a.words.isEmpty) = (.ok (some t), l₁) ∧
      a' = a.add t.splitSeparator.1 l₁.startLocation := by
  unfold commandStep at h
  split at h
  · cases h
  · split at h <;> cases h
  · rename_i t l₁ ht
    refine ⟨t, l₁, ht, ?_⟩
    dsimp only at h
    split at h
    · cases h
      rfl
    · split at h
      · cases h
      · split at h <;> cases h
        rfl

/-- How a command ends, and as what, when these words were read before. -/
inductive CommandEnds (escape : EscapeSet) (a : Assembly) (l l' : Lexer σ) : Option Command → Prop
  | nothing (ended : l.readToken escape (!a.words.isEmpty) = (.ok none, l')) :
    CommandEnds escape a l l' none
  | input {l₁ : Lexer σ} {start} (ended : l.readToken escape (!a.words.isEmpty) = (.ok none, l₁))
    (words : a.words ≠ []) (behind : l'.input = l₁.input) :
    CommandEnds escape a l l' (some ⟨a.words, none, start⟩)
  | separator {t s} {l₁ : Lexer σ} {start}
    (token : l.readToken escape (!a.words.isEmpty) = (.ok (some t), l₁))
    (last : t.splitSeparator.2 = some s) (ends : s.endsCommand = true)
    (words : (a.add t.splitSeparator.1 l₁.startLocation).words ≠ [])
    (behind : l'.input = l₁.input) :
    CommandEnds escape a l l'
      (some ⟨(a.add t.splitSeparator.1 l₁.startLocation).words, some s, start⟩)

/-- A command that is over ended in one of these ways. -/
theorem commandStep_done {escape : EscapeSet} {a : Assembly} {c : Option Command}
    (h : commandStep escape a l = (.ok (.done c), l')) : CommandEnds escape a l l' c := by
  unfold commandStep at h
  split at h
  · cases h
  · rename_i ht
    split at h <;> cases h
    · exact .nothing ht
    · rename_i hwords
      exact .input ht (by simpa using hwords) rfl
  · rename_i t l₁ ht
    dsimp only at h
    split at h
    · cases h
    · rename_i s hs
      split at h
      · cases h
      · rename_i hends
        split at h <;> cases h
        rename_i hwords
        exact .separator ht hs (by simpa using hends) (by simpa using hwords) rfl

end ShellScript.Lexer
