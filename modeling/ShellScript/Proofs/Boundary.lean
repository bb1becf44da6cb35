import Mathlib.Control.Monad.Basic
import ShellScript.Proofs.Inputs
import ShellScript.Proofs.Steps

/-!
# Command boundaries

Where a command ends that a separator ended, a text can be cut in two. The parser that has read the first
part up to its end reads what follows as a fresh parser does, with positions moved by where the first part
ends (`items_append`).
-/

namespace ShellScript

/-! ## The last character of a command -/

namespace Lexer

variable {escape : EscapeSet} {l l' : Lexer Cursor}

/-- A separator that ends a command is one character, and no character after it is looked at. -/
theorem readSeparator_of_endsCommand {σ : Type} [Input σ] {here : Position} {hasOperand : Bool}
    {s s' : Separator} {l l' : Lexer σ} (h : readSeparator here hasOperand s l = (.ok s', l'))
    (hs : s'.endsCommand = true) : s' = s ∧ l' = l := by
  unfold readSeparator readPipe at h
  split at h
  · split at h
    · cases h
    · split at h
      · split at h <;> cases h
        cases hs
      · cases h
        cases hs
  · cases h
    exact ⟨rfl, rfl⟩

/-- A token ends in a separator only if its last character is one. -/
theorem wordStep_of_separator {σ : Type} [Input σ] {escape : EscapeSet} {commandOpen : Bool}
    {g : Gathering} {t : Token} {s : Separator} {l l' : Lexer σ}
    (hg : ∀ e ∈ g.elements, e.separator? = none)
    (h : wordStep escape commandOpen g l = (.ok (.done (some t)), l'))
    (hs : t.separator? = some s) :
    ∃ c l₁ s' hasOperand, l.nextRune = (.ok (some c), l₁) ∧ role escape c = .separator s' ∧
      readSeparator l.position hasOperand s' l₁ = (.ok s, l') := by
  obtain ⟨filename, hends⟩ := wordStep_done h
  have hplain := Gathering.settle_plain hg filename
  have hnone {es : List Element} (hes : ∀ e ∈ es, e.separator? = none)
      (ht : Token.ofElements? es = some t) : False := by
    rw [Token.ofElements?_eq_some ht, Token.separator?_of_plain hes] at hs
    cases hs
  generalize g.settle filename = es at hplain hends
  generalize ht : some t = t' at hends
  -- what was gathered is plain, so the separator is one that was read last
  cases hends with
  | input => exact (hnone hplain ht.symm).elim
  | comment => exact (hnone hplain ht.symm).elim
  | blank =>
    cases ht
    rw [Token.separator?_of_plain hplain] at hs
    cases hs
  | dollar literal =>
    cases ht
    simp [Token.separator?, Element.separator?] at hs
  | @separator c l₁ hasOperand s₁ s₂ next meaning read =>
    cases ht
    rw [Token.separator?_of_separator] at hs
    cases hs
    exact ⟨c, l₁, s₁, hasOperand, next, meaning, read⟩

/-- A separator is an ASCII character. -/
theorem toNat_lt_of_role {escape : EscapeSet} {c : Char} {s : Separator}
    (h : role escape c = .separator s) : c.toNat < 128 := by
  unfold role at h
  split at h
  · cases h
  · rename_i hsafe
    simp [isShellSafe] at hsafe
    omega

/-- A token that ends a command ends in the character that does. -/
theorem readToken_of_separator {whole : List UInt8} {escape : EscapeSet} {commandOpen : Bool}
    {t : Token} {s : Separator} {l l' : Lexer Cursor} (hl : l.input.Within whole)
    (h : readToken escape commandOpen l = (.ok (some t), l')) (ht : t.separator? = some s)
    (hs : s.endsCommand = true) :
    ∃ (l₁ : Lexer Cursor) (c : Char), l₁.input.Within whole ∧ l₁.nextRune = (.ok (some c), l') ∧
      role escape c = .separator s := by
  let K := Correspondence.within l.filename whole
  -- before every step the word in the making holds no separator, and the cursor is within its text
  let P (g : Gathering) (l : Lexer Cursor) := K.relocation.Gathered g g ∧ K.Sim l l
  have hstep {g g' : Gathering} {l l' : Lexer Cursor} (hP : P g l)
      (hmore : wordStep escape commandOpen g l = (.ok (.more g'), l')) : P g' l' := by
    have hagree := hP.2.wordStep escape commandOpen hP.1
    rw [hmore] at hagree
    exact hagree.more fun _ => id
  have hbegin := (Correspondence.aligned_within hl).begin
  obtain ⟨g, l₁, ⟨hg, sim⟩, hlast⟩ := iterate_ok (P := P) hstep ⟨.empty, hbegin⟩ h
  obtain ⟨c, l₂, s', hasOperand, hn, hr, hsep⟩ := wordStep_of_separator hg.elements.2 hlast ht
  obtain ⟨rfl, rfl⟩ := readSeparator_of_endsCommand hsep hs
  exact ⟨l₁, c, sim.input.2, hn, hr⟩

/-- A command that a separator ended, likewise. -/
theorem readCommand_of_terminator {whole : List UInt8} {escape : EscapeSet} {c : Command}
    {l l' : Lexer Cursor} (hl : l.input.Within whole)
    (h : readCommand escape l = (.ok (some c), l')) (hc : c.terminator ≠ none) :
    ∃ (l₁ : Lexer Cursor) (rune : Char) (s : Separator) (l₂ : Lexer Cursor),
      l₁.input.Within whole ∧ l₁.nextRune = (.ok (some rune), l₂) ∧
      role escape rune = .separator s ∧ c.terminator = some s ∧ l'.input = l₂.input := by
  let K := Correspondence.within l.filename whole
  let P (a : Assembly) (l : Lexer Cursor) := K.relocation.Assembled a a ∧ K.Sim l l
  have hstep {a a' : Assembly} {l l' : Lexer Cursor} (hP : P a l)
      (hmore : commandStep escape a l = (.ok (.more a'), l')) : P a' l' := by
    have hagree := hP.2.commandStep escape hP.1
    rw [hmore] at hagree
    exact hagree.more fun _ => id
  obtain ⟨a, l₁, ⟨-, sim⟩, hlast⟩ :=
    iterate_ok (P := P) hstep ⟨.empty, Correspondence.sim_within hl⟩ h
  cases commandStep_done hlast with
  | input => exact (hc rfl).elim
  | @separator t s l₂ _ token last ends _ behind =>
    obtain ⟨l₃, rune, hl₃, hn, hr⟩ :=
      readToken_of_separator sim.input.2 token (t.splitSeparator_snd ▸ last) ends
    exact ⟨l₃, rune, s, l₂, hl₃, hn, hr, rfl, behind⟩

end Lexer

/-- An ASCII character is read from its own bytes. -/
theorem Cursor.rest_of_ascii {c : Cursor} {rune : Char} (h : c.nextRune.1 = some rune)
    (hrune : rune.toNat < 128) : c.rest = String.utf8EncodeChar rune ++ c.nextRune.2.rest := by
  unfold Cursor.nextRune at h ⊢
  cases hr : c.rest with
  | nil =>
    rw [hr] at h
    cases h
  | cons lead rest =>
    rw [hr] at h
    dsimp only at h ⊢
    unfold Utf8.nextRune at h ⊢
    cases hn : Utf8.next? (lead :: rest) with
    | none =>
      -- a byte that starts no sequence reads as U+FFFD, which is not ASCII
      rw [hn] at h
      cases h
      exact absurd hrune (by decide)
    | some x =>
      rw [hn] at h
      cases h
      obtain ⟨⟨more, hmore⟩, hlength⟩ := Utf8.next?_eq_some_iff.mp hn
      simp [← hmore, hlength]

/-- The last character of a text, if it is ASCII, is a whole sequence. -/
theorem Cursor.next?_of_last {c : Cursor} {rune : Char} (h : c.nextRune.1 = some rune)
    (hrune : rune.toNat < 128) (hrest : c.nextRune.2.rest = []) :
    Utf8.next? c.rest = some (rune, c.rest.length) := by
  have hbytes := Cursor.rest_of_ascii h hrune
  rw [hrest, List.append_nil] at hbytes
  rw [hbytes]
  simpa using Utf8.next?_utf8EncodeChar rune []

/-! ## Cutting a text -/

namespace Parser

variable {escape : EscapeSet} {filename : String} {p : List UInt8} {c : Command}

/-- A text that a terminated command takes up leaves no sequence open. -/
theorem complete_of_readCommand {q : Parser Cursor}
    (h : (ofCursor p filename escape).readCommand = (.ok (some c), q)) (hc : c.terminator ≠ none)
    (hrest : q.lexer.input.rest = []) : Utf8.Complete p := by
  obtain ⟨l, hr, rfl⟩ := readCommand_eq_ok.mp h
  obtain ⟨l₁, rune, s, l₂, ⟨before, hp, -⟩, hn, hrole, -, hinput⟩ :=
    Lexer.readCommand_of_terminator (Cursor.Within.start p) hr hc
  obtain ⟨hrune, hl₂⟩ := Cursor.nextRune_of_ok (Lexer.lift_eq_ok hn)
  rw [hinput, ← hl₂] at hrest
  rw [hp]
  exact Utf8.complete_append
    (Cursor.next?_of_last hrune (Lexer.toNat_lt_of_role hrole) hrest) before

/-- Reading a command leaves a cursor within its text. -/
theorem within_of_readCommand {q : Parser Cursor} {c : Option Command}
    (h : (ofCursor p filename escape).readCommand = (.ok c, q)) : q.lexer.input.Within p := by
  have hstart : (Correspondence.within filename p).Parsers (ofCursor p filename escape)
      (ofCursor p filename escape) :=
    ⟨Correspondence.aligned_within (l := (ofCursor p filename escape).lexer) (.start p), rfl, rfl⟩
  obtain ⟨q', -, hq⟩ := hstart.readCommand_of_ok (fun _ => id) h
  exact hq.lexer.input.2

/-- After a terminated command that takes up `p`, a parser stands before `t` as if it were fresh. -/
theorem readCommand_append {q : Parser Cursor}
    (h : (ofCursor p filename escape).readCommand = (.ok (some c), q)) (hc : c.terminator ≠ none)
    (hrest : q.lexer.input.rest = []) (t : List UInt8) :
    ∃ q', (ofCursor (p ++ t) filename escape).readCommand = (.ok (some c), q') ∧
      (Correspondence.shifted filename q.lexer.position q'.lexer.journal).Parsers
        (ofCursor t filename escape) q' := by
  have hcomplete := complete_of_readCommand h hc hrest
  obtain ⟨l, hr, rfl⟩ := readCommand_eq_ok.mp h
  have hstart : (Correspondence.extended filename hcomplete t).Aligned
      (ofCursor p filename escape).lexer (ofCursor (p ++ t) filename escape).lexer :=
    (Correspondence.sim_extended filename hcomplete t).toAligned
  have hagree := hstart.readCommand escape
  generalize hx : Lexer.readCommand escape (ofCursor p filename escape).lexer = x at hagree
  generalize hy : Lexer.readCommand escape (ofCursor (p ++ t) filename escape).lexer = y at hagree
  cases (hr.symm.trans hx : _ = x)
  -- a command that was cut short would have no terminator
  cases hagree with
  | cut stopped value => exact (hc (value c rfl)).elim
  | @ok _ c' _ m value sim =>
    have hvalue : c' = some c := value.trans (congrArg some (Relocation.same_command c))
    refine ⟨_, readCommand_eq_ok.mpr ⟨m, hvalue ▸ hy, rfl⟩, ?_⟩
    refine ⟨⟨⟨?_, ?_, Position.Counted.start⟩, rfl, sim.filename.trans sim.label, [], rfl, rfl⟩,
      rfl, rfl⟩
    · exact sim.input.rest.trans (congrArg (· ++ t) hrest)
    · exact sim.input.position.trans (Relocation.after_start _).symm

/-- Behind a terminated command that takes up `p`, a parser reads `t` as a fresh parser does, with
positions moved to where `p` ends. -/
theorem items_append (escape : EscapeSet) (filename : String) (p t : List UInt8) {c : Command}
    {q : Parser Scanner} (h : (ofBytes p filename escape).readCommand = (.ok (some c), q))
    (hc : c.terminator ≠ none) (hq : q.lexer.position.offset = p.length) :
    (ofBytes (p ++ t) filename escape).items.1 =
      .ok c :: (ofBytes t filename escape).items.1.map (Relocation.after q.lexer.position).item := by
  obtain ⟨q₁, hr₁, hq₁⟩ :=
    (Correspondence.parsers_ofBytes p filename escape).readCommand_of_ok (fun _ => id) h
  have hcommand : (Correspondence.ofReader filename).relocation.command c = c :=
    Relocation.same_command c
  rw [Option.map_some, hcommand] at hr₁
  have hposition : q₁.lexer.position = q.lexer.position := hq₁.lexer.position
  have hrest : q₁.lexer.input.rest = [] :=
    (within_of_readCommand hr₁).rest_eq_nil ((congrArg Position.offset hposition).trans hq)
  obtain ⟨q₂, hr₂, hq₂⟩ := readCommand_append hr₁ hc hrest t
  have hnext : (ofCursor (p ++ t) filename escape).next = (some (.ok c), q₂) := by
    simp only [next, hr₂]
    rfl
  rw [items_ofBytes, items_ofBytes, items_eq, hnext]
  dsimp only
  rw [(hq₂.items fun _ => id).2, ← hposition]
  rfl

/-- Behind `a;`, the error that a lone pipe is stands two columns further on. -/
theorem items_append_semicolon : ∃ c q,
    (ofBytes [0x61, 0x3B] "s" .default).readCommand = (.ok (some c), q) ∧ c.terminator ≠ none ∧
      q.lexer.position.offset = 2 ∧
      (ofBytes [0x61, 0x3B, 0x7C] "s" .default).items.1 =
        .ok c :: (ofBytes [0x7C] "s" .default).items.1.map (Relocation.after ⟨2, 1, 3⟩).item := by
  let c : Command := ⟨[⟨[.literal ⟨"a", ⟨"s", .start⟩⟩]⟩], some .semicolon, ⟨"s", .start⟩⟩
  let q := (ofBytes [0x61, 0x3B] "s" .default).readCommand.2
  have hresult : (ofBytes [0x61, 0x3B] "s" .default).readCommand.1 = .ok (some c) := by
    decide +kernel
  have hread : (ofBytes [0x61, 0x3B] "s" .default).readCommand = (.ok (some c), q) :=
    Prod.ext hresult rfl
  have hposition : q.lexer.position = ⟨2, 1, 3⟩ := by decide +kernel
  have hoffset : q.lexer.position.offset = [0x61, 0x3B].length := congrArg Position.offset hposition
  have hitems := items_append .default "s" [0x61, 0x3B] [0x7C] hread (by decide) hoffset
  rw [hposition] at hitems
  exact ⟨c, q, hread, by decide, hoffset, hitems⟩

end Parser

end ShellScript
