import ShellScript.Proofs.Continuations

/-!
# Reserved characters

Brackets, redirections, `&` and backticks belong to syntax that is not offered, and a pipe needs a pipeline.
Behind a script that can be read, such a character is an error at the place where it stands, whatever
comes after it (`parseString_reserved`).
-/

namespace ShellScript

/-- The characters that are an error outside quotes. -/
def reserved : List Char := ['(', ')', '<', '>', '&', '`', '|']

/-- How a reserved character at a place is refused. A pipe is refused for what it is only where there is a
command for it to take its input from; its error stands behind it. -/
inductive Refuses (place : Location) (operand : Prop) : Char → ParseError → Prop
  | opening : Refuses place operand '(' (.unsupported "subshell or function syntax" place)
  | closing : Refuses place operand ')' (.unexpectedToken ")" place)
  | less : Refuses place operand '<' (.unsupported "redirection" place)
  | greater : Refuses place operand '>' (.unsupported "redirection" place)
  | ampersand : Refuses place operand '&' (.unsupported "background jobs and `&&` lists" place)
  | backtick : Refuses place operand '`' (.unsupported "backtick command substitution" place)
  | lonePipe (none : ¬operand) : Refuses place operand '|' (.unexpectedToken "|" place)
  | pipe (some : operand) (behind : Location) :
    Refuses place operand '|' (.unsupported "pipelines" behind)

namespace Lexer

variable {escape : EscapeSet} {commandOpen : Bool} {l l₁ : Lexer Cursor} {x : Char}

/-! ## At the reserved character -/

/-- No name goes on with a reserved character. -/
theorem isNameChar_of_reserved (hx : x ∈ reserved) : isNameChar x = false := by
  have hall : reserved.all (!isNameChar ·) = true := by decide
  simpa using List.all_eq_true.mp hall x hx

/-- What a reserved character makes of the word that it stands behind: an error, or, for a pipe with
something before it, a token that ends in the pipe. -/
inductive Stopped (place : Location) (operand : Prop) (x : Char) : Read Cursor (Option Token) → Prop
  | refused {e l} (refuses : Refuses place operand x e) : Stopped place operand x (.error e, l)
  | piped {t s l} (pipe : x = '|') (some : operand) (last : t.separator? = Option.some s)
    (goesOn : s.endsCommand = false) : Stopped place operand x (.ok (Option.some t), l)

/-- A pipe behind a word. -/
theorem stopped_of_pipe (hpipe : role escape '|' = .separator .pipe) (commandOpen : Bool) (g : Gathering)
    {r : List Char} (h : l.input.rest = String.utf8EncodeChar '|' ++ Utf8.encodeChars r) :
    Stopped l.location (g.settle l.filename ≠ [] ∨ commandOpen = true) '|'
      (iterate (wordStep escape commandOpen) size_wordStep_lt g l) := by
  obtain ⟨l₁, hn, htakes, -⟩ := nextRune_takes h
  have hlabel : l₁.filename = l.filename := htakes.filename
  rw [iterate_eq]
  unfold wordStep wordRune
  simp only [hn, hpipe, readSeparator, if_true, hlabel]
  by_cases hoperand : g.settle l.filename ≠ [] ∨ commandOpen = true
  · -- with something in front, one pipe or two end the token, whatever follows
    have hread : ∃ s l₂, l₁.readPipe l.position (!(g.settle l.filename).isEmpty || commandOpen) =
        (.ok s, l₂) ∧ s.endsCommand = false := by
      rw [show (!(g.settle l.filename).isEmpty || commandOpen) = true by simpa using hoperand]
      rcases readPipe_chars l.position (htakes.rest_eq h) with ⟨-, l₂, -, hr, -⟩ | ⟨-, hr⟩
      · exact ⟨_, l₂, hr, rfl⟩
      · exact ⟨_, l₁, hr, rfl⟩
    obtain ⟨s, l₂, hread, hends⟩ := hread
    simp only [hread]
    exact .piped rfl hoperand (Token.separator?_of_separator _ _) hends
  · have hread : l₁.readPipe l.position (!(g.settle l.filename).isEmpty || commandOpen) =
        (.error (.unexpectedToken "|" l.location), l₁) := by
      rw [show (!(g.settle l.filename).isEmpty || commandOpen) = false by simpa using hoperand]
      rw [readPipe, place, hlabel]
      rfl
    simp only [hread]
    exact .refused (.lonePipe hoperand)

/-- A reserved character behind a word. -/
theorem stopped_of_reserved (hescape : ∀ c ∈ reserved, escape.contains c = false) (hx : x ∈ reserved)
    (commandOpen : Bool) (g : Gathering) {r : List Char}
    (h : l.input.rest = Utf8.encodeChars (x :: r)) :
    Stopped l.location (g.settle l.filename ≠ [] ∨ commandOpen = true) x
      (iterate (wordStep escape commandOpen) size_wordStep_lt g l) := by
  rw [Utf8.encodeChars_cons] at h
  obtain ⟨l₁, hn, htakes, -⟩ := nextRune_takes h
  have hplace : l₁.place l.position = l.location := by
    rw [place, htakes.filename]
    rfl
  have hrole : role escape x = role .empty x := role_eq_of_not_contains (hescape x hx)
  -- all but the pipe are refused at once, for what they are or for where they stand
  have hunsupported (feature : String) (hr : role .empty x = .unsupported feature) :
      iterate (wordStep escape commandOpen) size_wordStep_lt g l =
        (.error (.unsupported feature l.location), l₁) := by
    rw [iterate_eq, ← hplace]
    unfold wordStep wordRune
    simp only [hn, hrole.trans hr]
  have hmisplaced (hr : role .empty x = .misplaced) :
      iterate (wordStep escape commandOpen) size_wordStep_lt g l =
        (.error (.unexpectedToken x.toString l.location), l₁) := by
    rw [iterate_eq, ← hplace]
    unfold wordStep wordRune
    simp only [hn, hrole.trans hr]
  simp only [reserved, List.mem_cons, List.not_mem_nil, or_false] at hx
  rcases hx with rfl | rfl | rfl | rfl | rfl | rfl | rfl
  · exact hunsupported "subshell or function syntax" (by decide) ▸ .refused .opening
  · exact hmisplaced (by decide) ▸ .refused .closing
  · exact hunsupported "redirection" (by decide) ▸ .refused .less
  · exact hunsupported "redirection" (by decide) ▸ .refused .greater
  · exact hunsupported "background jobs and `&&` lists" (by decide) ▸ .refused .ampersand
  · exact hunsupported "backtick command substitution" (by decide) ▸ .refused .backtick
  · exact stopped_of_pipe (hrole.trans (by decide)) commandOpen g h

/-! ## Behind a command -/

/-- A command that fails, as a reserved character makes it fail. -/
def Rejected (place : Location) (operand : Prop) (x : Char) (y : Read Cursor (Option Command)) : Prop :=
  ∃ e l, y = (.error e, l) ∧ Refuses place operand x e

/-- A reserved character behind the words of a command, and a word that is open. -/
theorem rejected_of_stopped {a : Assembly} {place : Location} {operand : Prop}
    (h : Stopped place operand x (l.readToken escape (!a.words.isEmpty))) :
    Rejected place operand x (iterate (commandStep escape) size_commandStep_lt a l) := by
  generalize hr : l.readToken escape (!a.words.isEmpty) = r at h
  rw [iterate_eq]
  cases h with
  | @refused e l₁ refuses =>
    have hstep : commandStep escape a l = (.error e, l₁) := by
      unfold commandStep
      simp only [hr]
    rw [hstep]
    exact ⟨e, l₁, rfl, refuses⟩
  | @piped t s l₁ pipe some last goesOn =>
    subst pipe
    rw [Correspondence.commandStep_of_pipe hr last goesOn]
    exact ⟨_, l₁, rfl, .pipe some _⟩

end Lexer

namespace Correspondence

open Lexer

variable {label : String} {text r : List Char} {escape : EscapeSet} {commandOpen : Bool} {x : Char}
variable {l l' m : Lexer Cursor} {g : Gathering} {p : Progress Gathering (Option Token)}

/-- A step within a token before a reserved character. -/
theorem Sim.wordStep_reserved (hescape : ∀ c ∈ reserved, escape.contains c = false) (hx : x ∈ reserved)
    (hhash : '#' ∉ text) (hdollar : text.getLast? ≠ some '$')
    (h : (lengthened label text (Utf8.encodeChars (x :: r))).Sim l m) (hstands : Stands label text l)
    (hg : AllReadable g.elements) (hl : Lexer.wordStep escape commandOpen g l = (.ok p, l')) :
    StepResumed label text (Utf8.encodeChars (x :: r))
      (fun es => Stopped ⟨label, .behind text⟩ (es ≠ [] ∨ commandOpen = true) x)
      escape commandOpen g m p l' := by
  have hmore : Utf8.encodeChars (x :: r) = String.utf8EncodeChar x ++ Utf8.encodeChars r :=
    Utf8.encodeChars_cons x r
  generalize hn : l.nextRune = rune
  obtain ⟨_ | _ | c, l₁⟩ := rune
  · simp only [Lexer.wordStep, hn] at hl
    cases hl
  · simp only [Lexer.wordStep, hn] at hl
    cases hl
    obtain ⟨hm, -⟩ := h.nextRune_of_none hmore hn
    have hstopped := stopped_of_reserved hescape hx commandOpen g hm
    -- the error is placed where the longer text goes on, which is where the shorter one ends
    have hlocation : m.location = ⟨label, .behind text⟩ := by
      obtain ⟨u, y, htext, hu, hy⟩ := hstands.point
      rw [nil_of_nextRune_none hn] at hy
      rw [Utf8.encodeChars_eq_nil.mp hy.symm, List.append_nil] at htext
      have hposition : m.position = l.position := h.position
      rw [location, place, h.filename.trans h.label, hposition, hu, htext]
      rfl
    rw [hlocation, h.filename.trans h.label] at hstopped
    rw [h.label]
    exact .closed (hg.settle label) (rest_of_nextRune hn) hstopped
  · obtain ⟨u, y, htext, hy⟩ := hstands.point_of_nextRune hn
    refine h.wordStep_more ⟨x, _, hmore, isNameChar_of_reserved hx⟩ hn (fun hrole hrest => ?_)
      (fun hrole => ?_) hl
    · rw [hrest] at hy
      rw [Utf8.encodeChars_eq_nil.mp hy.symm, eq_of_role hrole] at htext
      exact hdollar (by simp [htext])
    · have hc : c = '#' := eq_of_role hrole
      exact hhash (by simp [htext, hc])

/-- A reserved character behind a text fails the word that is open there, and with it the command. -/
theorem continuation_of_reserved (hescape : ∀ c ∈ reserved, escape.contains c = false)
    (hx : x ∈ reserved) (hhash : '#' ∉ text) (hdollar : text.getLast? ≠ some '$') :
    Continuation label text (Utf8.encodeChars (x :: r)) escape
      (fun commandOpen es => Stopped ⟨label, .behind text⟩ (es ≠ [] ∨ commandOpen = true) x)
      (fun _ => Rejected ⟨label, .behind text⟩ True x) (Rejected ⟨label, .behind text⟩ False x) where
  ne_nil := by simp
  token h hstands :=
    h.readToken_resumed (fun sim hstands => sim.wordStep_reserved hescape hx hhash hdollar hstands) hstands
  command {a es m} _ hwords hstopped := by
    have hoperand : (es ≠ [] ∨ (!a.words.isEmpty) = true) ↔ True := by
      by_cases hes : es = []
      · subst hes
        simpa [Token.ofElements?] using hwords
      · simp [hes]
    rw [propext hoperand] at hstopped
    exact rejected_of_stopped hstopped
  nothing {m} hstopped := by
    have hoperand : (([] : List Element) ≠ [] ∨ false = true) ↔ False := by simp
    rw [propext hoperand] at hstopped
    exact rejected_of_stopped (a := {}) hstopped

/-- The commands of the shorter text that were ended, and then the error. -/
theorem items_reserved (hescape : ∀ c ∈ reserved, escape.contains c = false) (hx : x ∈ reserved)
    (hhash : '#' ∉ text) (hdollar : text.getLast? ≠ some '$')
    (h : (lengthened label text (Utf8.encodeChars (x :: r))).Sim l m) (hstands : Stands label text l)
    {cs : List Command} (hitems : ({ lexer := l, escape } : Parser Cursor).items.1 = cs.map .ok) :
    ∃ (ds : List Command) (e : ParseError),
      ({ lexer := m, escape } : Parser Cursor).items.1 = ds.map .ok ++ [.error e] ∧
      Refuses ⟨label, .behind text⟩ (∃ c, cs.getLast? = some c ∧ c.terminator = none) x e := by
  have hmore : Continuation label text (Utf8.encodeChars (x :: r)) escape _ _ _ :=
    continuation_of_reserved hescape hx hhash hdollar
  -- along the commands of the shorter text: each of them was ended in it, or is the last one
  induction cs generalizing l m with
  | nil =>
    obtain ⟨l', hl⟩ := Parser.readCommand_of_items_nil rfl hitems
    have hcompleted := hmore.readCommand h hstands hl
    rw [Parser.items_of_readCommand rfl]
    dsimp only
    generalize hy : m.readCommand escape = y at hcompleted
    cases hcompleted with
    | passed ends =>
      obtain ⟨e, m', rfl, refuses⟩ := ends
      exact ⟨[], e, rfl, by simpa using refuses⟩
  | cons c cs ih =>
    obtain ⟨l', hl, hrest⟩ := Parser.readCommand_of_items hitems
    have hcompleted := hmore.readCommand h hstands hl
    rw [Parser.items_of_readCommand rfl]
    dsimp only
    generalize hy : m.readCommand escape = y at hcompleted
    cases hcompleted with
    | @same _ _ m' sim stands terminated =>
      obtain ⟨ds, e, hds, refuses⟩ := ih sim stands hrest
      refine ⟨c :: ds, e, ?_, ?_⟩
      · dsimp only
        rw [hds]
        rfl
      · -- whether the last command is open does not change with one more in front
        have hlast : (∃ d, (c :: cs).getLast? = some d ∧ d.terminator = none) ↔
            ∃ d, cs.getLast? = some d ∧ d.terminator = none := by
          cases cs with
          | nil => simpa using terminated
          | cons c' cs => rw [List.getLast?_cons_cons]
        rwa [propext hlast]
    | finished last rest ends =>
      obtain ⟨e, m', rfl, refuses⟩ := ends
      have hnone := Parser.items_of_rest (p := { lexer := l', escape }) rest
      have hcs : cs = [] := by simpa using hrest.symm.trans hnone
      refine ⟨[], e, rfl, ?_⟩
      rw [hcs]
      simpa [last] using refuses

end Correspondence

/-- A reserved character behind a script that can be read is refused, whatever comes after it: as itself,
at the place where it stands, or, if it is a pipe and the last command of the script is open, as a
pipeline. A comment would hide the character, and a dollar sign could make a parameter of it. -/
theorem parseString_reserved {script filename : String} {cs : List Command}
    (h : parseString script filename = .ok cs) (hhash : '#' ∉ script.toList)
    (hdollar : script.toList.getLast? ≠ some '$') {x : Char} (hx : x ∈ reserved) (rest : String) :
    ∃ e, parseString (script ++ x.toString ++ rest) filename = .error e ∧
      Refuses ⟨filename, .behind script.toList⟩ (∃ c, cs.getLast? = some c ∧ c.terminator = none) x e := by
  have hbytes : Utf8.encode (script ++ x.toString ++ rest) =
      Utf8.encode script ++ Utf8.encodeChars (x :: rest.toList) := by
    simp [Utf8.encode, Char.toString]
  have hstands : (Parser.ofCursor (Utf8.encode script) filename .default).lexer.Stands filename
      script.toList := ⟨rfl, ⟨[], _, rfl, rfl, rfl⟩, ⟨[], _, rfl, rfl⟩⟩
  have sim := Correspondence.sim_extended filename (Utf8.complete_encodeChars script.toList)
    (Utf8.encodeChars (x :: rest.toList))
  obtain ⟨ds, e, hitems, refuses⟩ := Correspondence.items_reserved
    (by simp [reserved, EscapeSet.contains_default]) hx hhash hdollar sim hstands
    (Parser.collect_eq_ok.mp h)
  have hall : (Parser.ofCursor (Utf8.encode (script ++ x.toString ++ rest)) filename .default).items.1 =
      ds.map .ok ++ [.error e] := hbytes ▸ hitems
  exact ⟨e, Parser.collect_of_items_error hall, refuses⟩

/-- In `a;b` and a line continuation the command `b` is open, so that a pipe behind them is one. -/
theorem parseString_reserved_pipe :
    let c : Command := ⟨[⟨[.literal ⟨"a", ⟨"s", .start⟩⟩]⟩], some .semicolon, ⟨"s", .start⟩⟩
    let d : Command := ⟨[⟨[.literal ⟨"b", ⟨"s", ⟨2, 1, 3⟩⟩⟩]⟩], none, ⟨"s", ⟨2, 1, 3⟩⟩⟩
    parseString "a;b \\\n" "s" = .ok [c, d] ∧ '#' ∉ "a;b \\\n".toList ∧
      "a;b \\\n".toList.getLast? ≠ some '$' ∧ '|' ∈ reserved ∧
      ∃ e, parseString "a;b \\\n|c" "s" = .error e ∧
        Refuses ⟨"s", ⟨6, 2, 1⟩⟩ (∃ c', [c, d].getLast? = some c' ∧ c'.terminator = none) '|' e := by
  intro c d
  have hparse : parseString "a;b \\\n" "s" = .ok [c, d] := by decide +kernel
  have hhash : '#' ∉ "a;b \\\n".toList := by decide
  have hdollar : "a;b \\\n".toList.getLast? ≠ some '$' := by decide
  have hreserved : '|' ∈ reserved := by decide
  exact ⟨hparse, hhash, hdollar, hreserved, parseString_reserved hparse hhash hdollar hreserved "c"⟩

end ShellScript
