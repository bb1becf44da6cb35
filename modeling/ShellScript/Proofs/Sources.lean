import Mathlib.Data.List.Forall2
import ShellScript.Proofs.Scripts

/-!
# Commands that are read from their source

A word is written as a source that the loop over a token reads as elements with some property (`Reads`).
Words with spaces between them and a terminator are then read as a command of as many tokens, each with the
property of its word (`Parser.next_of_reads`).
-/

namespace ShellScript

namespace Lexer

variable {escape : EscapeSet} {commandOpen : Bool} {l : Lexer Cursor} {rest : List UInt8}
variable {es : List Element}

/-! ## The end of a word -/

/-- A space ends the word in front of it. -/
theorem readOn_space (hspace : escape.contains ' ' = false) (hes : es ≠ [])
    (h : l.input.rest = String.utf8EncodeChar ' ' ++ rest) :
    ∃ l', readOn escape commandOpen es l = (.ok (some ⟨es⟩), l') ∧ l'.input.rest = rest := by
  obtain ⟨l', hn, hl', -⟩ := nextRune_encoded h
  have hempty : es.isEmpty = false := by simpa using hes
  refine ⟨l', ?_, hl'⟩
  rw [readOn, iterate_eq]
  unfold wordStep wordRune
  simp only [hn, role_space hspace, settle_elements, hempty]
  rfl

/-- A separator ends the word that was gathered before it. -/
theorem wordStep_separator (commandOpen : Bool) {c : Char} {s : Separator}
    (hrole : role escape c = .separator s) (hs : s.endsCommand = true) (g : Gathering)
    (h : l.input.rest = String.utf8EncodeChar c ++ rest) :
    ∃ l', wordStep escape commandOpen g l =
        (.ok (.done (some ⟨g.settle l.filename ++ [.separator s]⟩)), l') ∧ l'.input.rest = rest := by
  obtain ⟨l', hn, htakes, -⟩ := nextRune_takes h
  have hpipe : s ≠ .pipe := by
    rintro rfl
    cases hs
  refine ⟨l', ?_, htakes.rest_eq h⟩
  unfold wordStep wordRune readSeparator
  simp only [hn, hrole, hpipe, if_false, htakes.filename]

/-- A separator ends the word in front of it, and the token with it. -/
theorem readOn_separator {c : Char} {s : Separator} (hrole : role escape c = .separator s)
    (hs : s.endsCommand = true) (h : l.input.rest = String.utf8EncodeChar c ++ rest) :
    ∃ l', readOn escape commandOpen es l = (.ok (some ⟨es ++ [.separator s]⟩), l') ∧
      l'.input.rest = rest := by
  obtain ⟨l', hstep, hl'⟩ := wordStep_separator commandOpen hrole hs { elements := es } h
  rw [settle_elements] at hstep
  refine ⟨l', ?_, hl'⟩
  rw [readOn, iterate_eq, hstep]

/-- A text from which elements are read, to its end, is one token. -/
theorem isOneToken_of_readOn {bytes : List UInt8} {filename : String} (hes : es ≠ [])
    (h : ∀ commandOpen, ∃ l, readOn escape commandOpen [] (Parser.ofCursor bytes filename escape).lexer =
      readOn escape commandOpen es l ∧ l.input.rest = []) :
    IsOneToken bytes filename escape ⟨es⟩ := by
  refine isOneToken_of_cursor fun commandOpen => ?_
  obtain ⟨l₁, hread, hrest⟩ := h commandOpen
  obtain ⟨l₂, hend, hrest'⟩ := readOn_end escape commandOpen es hrest
  have hsome : Token.ofElements? es = some ⟨es⟩ := by
    cases es with
    | nil => exact absurd rfl hes
    | cons e es => rfl
  rw [hsome] at hend
  exact ⟨l₂, hread.trans hend, hrest'⟩

/-! ## Words -/

/-- Whether reading a source adds elements to a word that have a property, and reads no further. -/
def Reads (escape : EscapeSet) (source : String) (v : List Element → Prop) : Prop :=
  ∀ (commandOpen : Bool) (es : List Element) (l : Lexer Cursor) (rest : List UInt8),
    l.input.rest = Utf8.encode source ++ rest →
    ∃ fs l', readOn escape commandOpen es l = readOn escape commandOpen (es ++ fs) l' ∧
      fs ≠ [] ∧ AllReadable fs ∧ v fs ∧ l'.input.rest = rest

/-- A token begins with what its source reads as, and goes on behind that. -/
theorem Reads.readToken {source : String} {v : List Element → Prop} (hv : Reads escape source v)
    (commandOpen : Bool) (h : l.input.rest = Utf8.encode source ++ rest) :
    ∃ fs l', l.readToken escape commandOpen = readOn escape commandOpen fs l' ∧
      fs ≠ [] ∧ AllReadable fs ∧ v fs ∧ l'.input.rest = rest :=
  hv commandOpen [] { l with tokenStart := l.position } rest h

/-! ## Commands -/

/-- A word is added if it has elements. -/
theorem words_add (a : Assembly) (fs : List Element) (start : Location) :
    (a.add ⟨fs⟩ start).words = a.words ++ (Token.ofElements? fs).toList := by
  cases fs with
  | nil => exact (List.append_nil _).symm
  | cons e fs => rfl

/-- A token without a separator is one more word. -/
theorem commandStep_word {l' : Lexer Cursor} {a : Assembly} {fs : List Element} (hfs : fs ≠ [])
    (hreadable : AllReadable fs)
    (h : l.readToken escape (!a.words.isEmpty) = (.ok (some ⟨fs⟩), l')) :
    ∃ a', commandStep escape a l = (.ok (.more a'), l') ∧ a'.words = a.words ++ [⟨fs⟩] := by
  have hs := Token.separator?_of_plain fun e he => (hreadable e he).separator?_eq
  refine ⟨a.add ⟨fs⟩ l'.startLocation, ?_, ?_⟩
  · unfold commandStep
    simp only [h, Token.splitSeparator, hs]
  · rw [words_add, Token.ofElements?_of_ne_nil hfs]
    rfl

/-- A token with a separator ends a command, which its word belongs to if it has one. -/
theorem commandStep_separator {l' : Lexer Cursor} {a : Assembly} {fs : List Element} {s : Separator}
    (hs : s.endsCommand = true) (hwords : a.words ++ (Token.ofElements? fs).toList ≠ [])
    (h : l.readToken escape (!a.words.isEmpty) = (.ok (some ⟨fs ++ [.separator s]⟩), l')) :
    ∃ d l'', commandStep escape a l = (.ok (.done (some d)), l'') ∧
      d.tokens = a.words ++ (Token.ofElements? fs).toList ∧ d.terminator = some s ∧
      l''.input = l'.input ∧ l''.filename = l'.filename := by
  have hadd := words_add a fs l'.startLocation
  have hempty : (a.add ⟨fs⟩ l'.startLocation).words.isEmpty = false := by simpa [hadd] using hwords
  have hstep : commandStep escape a l =
      finishCommand (a.add ⟨fs⟩ l'.startLocation) (some s) l' := by
    unfold commandStep
    simp only [h, Token.splitSeparator, Token.separator?_of_separator, List.dropLast_concat, hs,
      hempty]
    rfl
  exact ⟨_, _, hstep, hadd, rfl, rfl, rfl⟩

/-- Words without a token behind them are a command without a terminator. -/
theorem commandStep_none {l' : Lexer Cursor} {a : Assembly} (ha : a.words ≠ [])
    (h : l.readToken escape (!a.words.isEmpty) = (.ok none, l')) :
    ∃ d l'', commandStep escape a l = (.ok (.done (some d)), l'') ∧ d.tokens = a.words ∧
      d.terminator = none ∧ l''.input = l'.input := by
  have hempty : a.words.isEmpty = false := by simpa using ha
  have hstep : commandStep escape a l = finishCommand a none l' := by
    rw [hempty] at h
    unfold commandStep
    simp only [hempty, h]
    rfl
  exact ⟨_, _, hstep, rfl, rfl, rfl⟩

/-- The input that ends after words ends the command. -/
theorem commandStep_end (escape : EscapeSet) {a : Assembly} (ha : a.words ≠ []) (h : l.input.rest = []) :
    ∃ d l', commandStep escape a l = (.ok (.done (some d)), l') ∧ d.tokens = a.words ∧
      d.terminator = none ∧ l'.input.rest = [] := by
  obtain ⟨l₁, hr, hl₁⟩ := readToken_end escape (!a.words.isEmpty) h
  obtain ⟨d, l', hstep, htokens, hterminator, hinput⟩ := commandStep_none ha hr
  exact ⟨d, l', hstep, htokens, hterminator, hinput ▸ hl₁⟩

/-- What ends a command: nothing, at the end of the input, or a separator that a character is. -/
def Ends (escape : EscapeSet) (terminator : Option Separator) (rest : List UInt8) : Prop :=
  match terminator with
  | none => rest = []
  | some s => s.endsCommand = true ∧ ∃ c, role escape c = .separator s

/-- The last word of a command, with what ends the command. -/
theorem iterate_commandStep_of_last {α : Type} {source : α → String} {v : α → List Element → Prop}
    {terminator : Option Separator} (hends : Ends escape terminator rest) {x : α}
    (hx : Reads escape (source x) (v x)) (a : Assembly)
    (h : l.input.rest = Utf8.encode (String.intercalate " " ([x].map source) ++
      (terminator.map Separator.toSource).getD "") ++ rest) :
    ∃ d ts l', iterate (commandStep escape) size_commandStep_lt a l = (.ok (some d), l') ∧
      d.tokens = a.words ++ ts ∧ List.Forall₂ (fun x t => v x t.elements) [x] ts ∧
      d.terminator = terminator ∧ l'.input.rest = rest := by
  cases terminator with
  | none =>
    -- the word is a token, and one more step finds the end of the input
    have hrest : rest = [] := hends
    have h₁ : l.input.rest = Utf8.encode (source x) ++ [] := by
      rw [h, hrest]
      simp
    obtain ⟨fs, l₁, hr, hne, hreadable, hfs, hl₁⟩ := hx.readToken (!a.words.isEmpty) h₁
    obtain ⟨l₂, hr₂, hl₂⟩ := readOn_end escape _ _ hl₁
    rw [Token.ofElements?_of_ne_nil hne] at hr₂
    obtain ⟨a', hstep, hwords⟩ := commandStep_word hne hreadable (hr.trans hr₂)
    have hopen : a'.words ≠ [] := by simp [hwords]
    obtain ⟨d, l', hlast, htokens, hterminator, hl'⟩ := commandStep_end escape hopen hl₂
    refine ⟨d, [⟨fs⟩], l', ?_, htokens.trans hwords, .cons hfs .nil, hterminator, hl'.trans hrest.symm⟩
    rw [iterate_eq, hstep]
    dsimp only
    rw [iterate_eq, hlast]
  | some s =>
    -- the separator belongs to the token of the word
    obtain ⟨hs, c, hrole⟩ := hends
    have h₁ : l.input.rest = Utf8.encode (source x) ++ (String.utf8EncodeChar c ++ rest) := by
      rw [h]
      simp [Utf8.encode, toSource_of_role hrole]
    obtain ⟨fs, l₁, hr, hne, -, hfs, hl₁⟩ := hx.readToken (!a.words.isEmpty) h₁
    obtain ⟨l₂, hr₂, hl₂⟩ := readOn_separator hrole hs hl₁
    have hword : (Token.ofElements? fs).toList = [⟨fs⟩] := by
      rw [Token.ofElements?_of_ne_nil hne]
      rfl
    obtain ⟨d, l', hlast, htokens, hterminator, hl', -⟩ :=
      commandStep_separator hs (by simp [hword]) (hr.trans hr₂)
    rw [hword] at htokens
    refine ⟨d, [⟨fs⟩], l', ?_, htokens, .cons hfs .nil, hterminator, ?_⟩
    · rw [iterate_eq, hlast]
    · rw [hl', hl₂]

/-- Words with spaces between them, and a terminator, are read as a command. -/
theorem iterate_commandStep_of_reads {α : Type} {source : α → String}
    {v : α → List Element → Prop} (hspace : escape.contains ' ' = false) {terminator : Option Separator}
    (hends : Ends escape terminator rest) {xs : List α} (hxs : xs ≠ [])
    (hreads : ∀ x ∈ xs, Reads escape (source x) (v x)) (a : Assembly)
    (h : l.input.rest = Utf8.encode (String.intercalate " " (xs.map source) ++
      (terminator.map Separator.toSource).getD "") ++ rest) :
    ∃ d ts l', iterate (commandStep escape) size_commandStep_lt a l = (.ok (some d), l') ∧
      d.tokens = a.words ++ ts ∧ List.Forall₂ (fun x t => v x t.elements) xs ts ∧
      d.terminator = terminator ∧ l'.input.rest = rest := by
  -- word by word: the space ends a word, and the terminator ends the last one
  induction xs generalizing a l with
  | nil => exact (hxs rfl).elim
  | cons x xs ih =>
    have hx := hreads x (by simp)
    cases xs with
    | nil => exact iterate_commandStep_of_last hends hx a h
    | cons y ys =>
      have h₁ : l.input.rest = Utf8.encode (source x) ++ (String.utf8EncodeChar ' ' ++
          (Utf8.encode (String.intercalate " " ((y :: ys).map source) ++
            (terminator.map Separator.toSource).getD "") ++ rest)) := by
        rw [h]
        simp [Utf8.encode, String.intercalate_cons_cons]
      obtain ⟨fs, l₁, hr, hne, hreadable, hfs, hl₁⟩ := hx.readToken (!a.words.isEmpty) h₁
      obtain ⟨l₂, hr₂, hl₂⟩ := readOn_space hspace hne hl₁
      obtain ⟨a', hstep, hwords⟩ := commandStep_word hne hreadable (hr.trans hr₂)
      obtain ⟨d, ts, l', hd, htokens, hts, hterminator, hl'⟩ :=
        ih (by simp) (fun z hz => hreads z (by simp [hz])) a' hl₂
      refine ⟨d, ⟨fs⟩ :: ts, l', ?_, ?_, .cons hfs hts, hterminator, hl'⟩
      · rw [iterate_eq, hstep]
        exact hd
      · rw [htokens, hwords, List.append_assoc]
        rfl

end Lexer

namespace Parser

variable {p : Parser Cursor} {rest : List UInt8}

/-- A command is the next item before its source. -/
theorem next_of_reads {α : Type} {source : α → String} {v : α → List Element → Prop}
    (hfailed : p.failed = false) (hspace : p.escape.contains ' ' = false)
    {terminator : Option Separator} (hends : Lexer.Ends p.escape terminator rest) {xs : List α}
    (hxs : xs ≠ []) (hreads : ∀ x ∈ xs, Lexer.Reads p.escape (source x) (v x))
    (h : p.lexer.input.rest = Utf8.encode (String.intercalate " " (xs.map source) ++
      (terminator.map Separator.toSource).getD "") ++ rest) :
    ∃ d l, p.next = (some (.ok d), { p with lexer := l }) ∧
      List.Forall₂ (fun x t => v x t.elements) xs d.tokens ∧ d.terminator = terminator ∧
      l.input.rest = rest := by
  obtain ⟨d, ts, l, hd, htokens, hts, hterminator, hl⟩ :=
    Lexer.iterate_commandStep_of_reads hspace hends hxs hreads {} h
  rw [List.nil_append] at htokens
  refine ⟨d, l, ?_, htokens ▸ hts, hterminator, hl⟩
  have hread : p.readCommand = (.ok (some d), { p with lexer := l, failed := false }) :=
    readCommand_eq_ok.mpr ⟨l, hd, rfl⟩
  simp only [next, hfailed, hread]
  rfl

end Parser

end ShellScript
