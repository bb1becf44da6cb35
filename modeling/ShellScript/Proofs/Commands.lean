import ShellScript.Proofs.Agreement

/-!
# Parsers on corresponding inputs

What agrees for tokens agrees for commands, and for everything that iterating over a parser yields. When
the left input never stops, `items_eq` gives the items of one parser from those of the other.
-/

namespace ShellScript

namespace Parser

variable {σ : Type} [Input σ]

/-- A read that succeeds leaves a parser that has not failed. -/
theorem readCommandWith_eq_ok {escape : EscapeSet} {p q : Parser σ} {c : Option Command} :
    p.readCommandWith escape = (.ok c, q) ↔
      ∃ l, p.lexer.readCommand escape = (.ok c, l) ∧ q = { p with lexer := l, failed := false } := by
  unfold readCommandWith
  rcases p.lexer.readCommand escape with ⟨_ | c', l⟩
  · simp
  · simp only [Prod.mk.injEq, Except.ok.injEq]
    constructor
    · rintro ⟨rfl, rfl⟩
      exact ⟨l, ⟨rfl, rfl⟩, rfl⟩
    · rintro ⟨_, ⟨rfl, rfl⟩, rfl⟩
      exact ⟨rfl, rfl⟩

/-- A parser that reads a command forgets that it has failed. -/
theorem readCommand_eq_ok {p q : Parser σ} {c : Option Command} :
    p.readCommand = (.ok c, q) ↔
      ∃ l, p.lexer.readCommand p.escape = (.ok c, l) ∧ q = { p with lexer := l, failed := false } :=
  readCommandWith_eq_ok

/-- The items of an iteration, one after the other. -/
theorem items_eq (p : Parser σ) :
    p.items = match p.next with
      | (none, p₁) => ([], p₁)
      | (some (.error e), p₁) => ([.error e], p₁)
      | (some (.ok c), p₁) => (.ok c :: p₁.items.1, p₁.items.2) := by
  rw [items]
  split <;> simp_all

/-- A parser that has failed yields nothing. -/
theorem items_of_failed {p : Parser σ} (h : p.failed = true) : p.items.1 = [] := by
  rw [items_eq]
  simp [next, h]

/-- The items of a parser that has not failed, by the command that it reads first. -/
theorem items_of_readCommand {p : Parser σ} (h : p.failed = false) :
    p.items.1 = match p.lexer.readCommand p.escape with
      | (.ok none, _) => []
      | (.ok (some c), l) => .ok c :: ({ p with lexer := l, failed := false } : Parser σ).items.1
      | (.error e, _) => [.error e] := by
  rw [items_eq]
  simp only [next, h, readCommand, readCommandWith]
  rcases p.lexer.readCommand p.escape with ⟨_ | _ | c, l⟩ <;> rfl

/-- A parser that yields a command read it. -/
theorem readCommand_of_items {p : Parser σ} {c : Command} {is : List (Except ParseError Command)}
    (h : p.items.1 = .ok c :: is) :
    ∃ l, p.lexer.readCommand p.escape = (.ok (some c), l) ∧
      ({ p with lexer := l, failed := false } : Parser σ).items.1 = is := by
  cases hf : p.failed with
  | true =>
    rw [items_of_failed hf] at h
    cases h
  | false =>
    rw [items_of_readCommand hf] at h
    split at h
    · cases h
    · rename_i c' l hr
      obtain ⟨hc, his⟩ := List.cons.inj h
      cases hc
      exact ⟨l, hr, his⟩
    · cases h

/-- A parser that yields nothing and has not failed read no command. -/
theorem readCommand_of_items_nil {p : Parser σ} (hf : p.failed = false) (h : p.items.1 = []) :
    ∃ l, p.lexer.readCommand p.escape = (.ok none, l) := by
  rw [items_of_readCommand hf] at h
  split at h
  · rename_i l hr
    exact ⟨l, hr⟩
  · cases h
  · cases h

/-- A parser that yields an error read it, and yields nothing after it. -/
theorem readCommand_of_items_error {p : Parser σ} {e : ParseError}
    {is : List (Except ParseError Command)} (h : p.items.1 = .error e :: is) :
    ∃ l, p.lexer.readCommand p.escape = (.error e, l) ∧ is = [] := by
  cases hf : p.failed with
  | true =>
    rw [items_of_failed hf] at h
    cases h
  | false =>
    rw [items_of_readCommand hf] at h
    split at h
    · cases h
    · cases h
    · rename_i e' l hr
      obtain ⟨he, his⟩ := List.cons.inj h
      cases he
      exact ⟨l, hr, his.symm⟩

end Parser

namespace Relocation

/-- Commands in the making that moved. -/
structure Assembled (φ : Relocation) (a a' : Assembly) : Prop where
  words : a'.words = a.words.map φ.token
  start : a'.start = a.start.map φ.location

variable {φ : Relocation} {a a' : Assembly}

/-- A command begins without words. -/
theorem Assembled.empty : φ.Assembled {} {} := ⟨rfl, rfl⟩

/-- Whether there are words does not depend on where they stand. -/
theorem Assembled.isEmpty_eq (h : φ.Assembled a a') : a'.words.isEmpty = a.words.isEmpty := by
  rw [h.words, List.isEmpty_map]

/-- One more word is added on both sides, or dropped on both for being empty. -/
theorem Assembled.add (h : φ.Assembled a a') (word : Token) (start : Location) :
    φ.Assembled (a.add word start) (a'.add (φ.token word) (φ.location start)) := by
  unfold Assembly.add
  rw [isEmpty_token]
  split
  · exact h
  · refine ⟨by simp [h.words], ?_⟩
    rw [h.start]
    cases a.start <;> rfl

end Relocation

namespace Correspondence

open Lexer

variable {σ τ : Type} [Input σ] [Input τ] {K : Correspondence σ τ}
variable {l : Lexer σ} {m : Lexer τ}

/-- A command that the left input left open has no terminator. -/
def OpenCommand (c : Option Command) : Prop :=
  ∀ d, c = some d → d.terminator = none

/-- A command without a terminator may be open. -/
theorem openCommand_of_terminator {c : Command} (h : c.terminator = none) :
    OpenCommand (some c) := by
  rintro d hd
  cases hd
  exact h

/-- At the end of the left input there is no token. -/
theorem readToken_of_stop (escape : EscapeSet) (commandOpen : Bool) (h : K.stop l.input) :
    ∃ l', l.readToken escape commandOpen = (.ok none, l') ∧ K.stop l'.input := by
  obtain ⟨l', hl, hs, -⟩ := nextRune_of_stop (l := { l with tokenStart := l.position }) h
  refine ⟨l', ?_, hs⟩
  rw [Lexer.readToken, iterate_eq]
  simp only [Lexer.wordStep, hl]
  rfl

/-- A token begins where the lexer stands, wherever the one before began. -/
theorem readToken_tokenStart (escape : EscapeSet) (commandOpen : Bool) (l : Lexer σ) (p : Position) :
    Lexer.readToken escape commandOpen { l with tokenStart := p } =
      Lexer.readToken escape commandOpen l := rfl

/-- A command is the same wherever the token before it began. -/
theorem readCommand_tokenStart (escape : EscapeSet) (l : Lexer σ) (p : Position) :
    Lexer.readCommand escape { l with tokenStart := p } = Lexer.readCommand escape l := by
  have hs : Lexer.commandStep escape {} { l with tokenStart := p } =
      Lexer.commandStep escape {} l := by
    unfold Lexer.commandStep
    rw [readToken_tokenStart]
  unfold Lexer.readCommand
  rw [iterate_eq, hs, ← iterate_eq]

namespace Sim

/-- A command that is over is noted, and located where its first word began. -/
theorem finishCommand {a a' : Assembly} (ha : K.relocation.Assembled a a')
    (terminator : Option Separator) (h : K.Sim l m) :
    K.Agree (Progressed K.relocation.Assembled fun c c' => c' = c.map K.relocation.command)
      (Stalled (fun _ => True) fun c _ => OpenCommand c)
      (Lexer.finishCommand a terminator l) (Lexer.finishCommand a' terminator m) := by
  have hstart : a'.start.getD m.startLocation =
      K.relocation.location (a.start.getD l.startLocation) := by
    rw [ha.start, h.startLocation]
    cases a.start <;> rfl
  have hcommand : Command.mk a'.words terminator (a'.start.getD m.startLocation) =
      K.relocation.command ⟨a.words, terminator, a.start.getD l.startLocation⟩ := by
    rw [hstart, ha.words]
    rfl
  unfold Lexer.finishCommand
  dsimp only
  rw [hcommand, Relocation.toSource_command, hstart]
  exact .ok (.done rfl) (h.note (.assembled _ _))

/-- One more token of a command. -/
theorem commandStep (escape : EscapeSet) {a a' : Assembly} (ha : K.relocation.Assembled a a')
    (h : K.Sim l m) :
    K.Agree (Progressed K.relocation.Assembled fun c c' => c' = c.map K.relocation.command)
      (Stalled (fun _ => True) fun c _ => OpenCommand c)
      (Lexer.commandStep escape a l) (Lexer.commandStep escape a' m) := by
  unfold Lexer.commandStep
  rw [ha.isEmpty_eq]
  have hr := h.readToken escape (!a.words.isEmpty)
  generalize Lexer.readToken escape (!a.words.isEmpty) l = x at hr ⊢
  generalize Lexer.readToken escape (!a.words.isEmpty) m = y at hr ⊢
  apply hr.bind (fun _ _ => rfl) (fun _ _ => rfl)
  · rintro t - l₁ m₁ - - rfl sim
    cases t with
    | none =>
      dsimp only [Option.map_none]
      split
      · exact .ok (.done rfl) sim
      · exact sim.finishCommand ha none
    | some t =>
      dsimp only [Option.map_some]
      rw [Relocation.splitSeparator_token, sim.startLocation]
      have hadd := ha.add t.splitSeparator.1 l₁.startLocation
      dsimp only
      rw [hadd.isEmpty_eq]
      split
      · exact .ok (.more hadd) sim
      · rename_i s _
        split
        · exact .error_of_eq sim (by rw [sim.location]; rfl)
        · split
          · exact .ok (.more hadd) (sim.note (.emptyCommand s))
          · exact sim.finishCommand hadd (some s)
  · -- a token that was cut short has no separator, or has a pipe where the right token has one too
    rintro t l₁ stopped (hplain | ⟨u, u', s', rfl, hu, hy, hu', hs'⟩)
    · cases t with
      | none =>
        dsimp only
        split
        · exact .cut stopped (stalled_done (fun _ => by simp [OpenCommand]) _)
        · exact .cut stopped (stalled_done (fun _ => openCommand_of_terminator rfl) _)
      | some t =>
        have ht := hplain t rfl
        simp only [Token.splitSeparator, ht]
        exact .cut stopped trivial
    · obtain ⟨y, m₁⟩ := y
      cases hy
      simp only [Token.splitSeparator, hu, hu', hs']
      exact .piped stopped

/-- A command is the same on both sides, or the left input left it open. -/
theorem readCommand (escape : EscapeSet) (h : K.Sim l m) :
    K.Agree (fun c c' => c' = c.map K.relocation.command) (fun c _ => OpenCommand c)
      (Lexer.readCommand escape l) (Lexer.readCommand escape m) := by
  refine iterate_agree (v := K.relocation.Assembled) (o := fun _ => True)
    (fun ha h => h.commandStep escape ha) ?_ .empty h
  rintro a l - stopped
  obtain ⟨l₁, hl, hs⟩ := readToken_of_stop escape (!a.words.isEmpty) stopped
  simp only [Lexer.commandStep, hl]
  split
  · exact ⟨hs, by simp [OpenCommand]⟩
  · exact ⟨hs, fun _ => openCommand_of_terminator rfl⟩

end Sim

/-- Commands agree whatever token the lexers have read before. -/
theorem Aligned.readCommand (escape : EscapeSet) (h : K.Aligned l m) :
    K.Agree (fun c c' => c' = c.map K.relocation.command) (fun c _ => OpenCommand c)
      (Lexer.readCommand escape l) (Lexer.readCommand escape m) := by
  have := h.begin.readCommand escape
  rwa [readCommand_tokenStart escape l, readCommand_tokenStart escape m] at this

/-- Reads of inputs that never stop: the answers are related, or the errors correspond, and the lexers
are aligned afterwards. -/
theorem Agree.endless {α β : Type} {v : α → β → Prop} {o : α → Except ParseError β → Prop}
    {x : Read σ α} {y : Read τ β} (hK : ∀ s, ¬ K.stop s) (h : K.Agree v o x y) :
    K.Sim x.2 y.2 ∧ match x.1, y.1 with
      | .ok a, .ok b => v a b
      | .error e, .error e' => e' = K.relocation.error e
      | _, _ => False := by
  cases h with
  | ok value sim => exact ⟨sim, value⟩
  | error sim => exact ⟨sim, rfl⟩
  | cut stopped => exact (hK _ stopped).elim
  | broken stopped => exact (hK _ stopped).elim
  | piped stopped => exact (hK _ stopped).elim

/-- Loops on inputs that never stop go on together. -/
theorem Agree.more {α β α' β' : Type} {v : α → α' → Prop} {w : β → β' → Prop}
    {o : Progress α β → Except ParseError (Progress α' β') → Prop} {a : α} {a' : α'}
    (hK : ∀ s, ¬ K.stop s) (h : K.Agree (Progressed v w) o (.ok (.more a), l) (.ok (.more a'), m)) :
    v a a' ∧ K.Sim l m := by
  obtain ⟨sim, value⟩ := h.endless hK
  cases value with
  | more state => exact ⟨state, sim⟩

/-- Parsers on corresponding inputs, with the same escape set. -/
structure Parsers (K : Correspondence σ τ) (p : Parser σ) (q : Parser τ) : Prop where
  lexer : K.Aligned p.lexer q.lexer
  escape : q.escape = p.escape
  failed : q.failed = p.failed

namespace Parsers

variable {p : Parser σ} {q : Parser τ}

/-- Parsers on inputs that are never over answer alike, and go on alike. -/
theorem readCommandWith (hK : ∀ s, ¬ K.stop s) (escape : EscapeSet) (h : K.Parsers p q) :
    K.Parsers (p.readCommandWith escape).2 (q.readCommandWith escape).2 ∧
      match (p.readCommandWith escape).1, (q.readCommandWith escape).1 with
      | .ok c, .ok c' => c' = c.map K.relocation.command
      | .error e, .error e' => e' = K.relocation.error e
      | _, _ => False := by
  have hr := (h.lexer.readCommand escape).endless hK
  unfold Parser.readCommandWith
  generalize Lexer.readCommand escape p.lexer = x at hr ⊢
  generalize Lexer.readCommand escape q.lexer = y at hr ⊢
  obtain ⟨r, l⟩ := x
  obtain ⟨r', m⟩ := y
  obtain ⟨sim, hv⟩ := hr
  match r, r', hv with
  | .ok c, .ok c', hv => exact ⟨⟨sim.toAligned, h.escape, rfl⟩, hv⟩
  | .error e, .error e', hv => exact ⟨⟨sim.toAligned, h.escape, rfl⟩, hv⟩

/-- Where one parser reads a command, the other one reads the same, moved. -/
theorem readCommand_of_ok (hK : ∀ s, ¬ K.stop s) (h : K.Parsers p q) {c : Option Command}
    {p' : Parser σ} (hp : p.readCommand = (.ok c, p')) :
    ∃ q', q.readCommand = (.ok (c.map K.relocation.command), q') ∧ K.Parsers p' q' := by
  have hr := h.readCommandWith hK p.escape
  rw [show p.readCommandWith p.escape = _ from hp] at hr
  unfold Parser.readCommand
  rw [h.escape]
  generalize q.readCommandWith p.escape = y at hr ⊢
  obtain ⟨r, q'⟩ := y
  obtain ⟨hq, hv⟩ := hr
  match r, hv with
  | .ok c', hv => exact ⟨q', by rw [show c' = _ from hv], hq⟩

/-- The iteration of parsers on inputs that are never over yields the same, moved. -/
theorem next (hK : ∀ s, ¬ K.stop s) (h : K.Parsers p q) :
    K.Parsers p.next.2 q.next.2 ∧ q.next.1 = p.next.1.map K.relocation.item := by
  have hr := h.readCommandWith hK p.escape
  unfold Parser.next Parser.readCommand
  rw [h.failed, h.escape]
  generalize p.readCommandWith p.escape = x at hr ⊢
  generalize q.readCommandWith p.escape = y at hr ⊢
  obtain ⟨r, p₁⟩ := x
  obtain ⟨r', q₁⟩ := y
  split
  · exact ⟨h, rfl⟩
  · obtain ⟨hp, hv⟩ := hr
    match r, r', hv with
    | .ok none, .ok c', hv =>
      cases hv
      exact ⟨hp, rfl⟩
    | .ok (some c), .ok c', hv =>
      cases hv
      exact ⟨hp, rfl⟩
    | .error e, .error e', hv =>
      cases hv
      exact ⟨hp, rfl⟩

/-- Iterating over parsers on corresponding inputs yields corresponding items. -/
theorem items (hK : ∀ s, ¬ K.stop s) (h : K.Parsers p q) :
    K.Parsers p.items.2 q.items.2 ∧ q.items.1 = p.items.1.map K.relocation.item := by
  induction hn : p.size using Nat.strongRecOn generalizing p q with
  | ind n ih =>
    subst hn
    obtain ⟨hp, hi⟩ := h.next hK
    have hlt := @Parser.size_next_lt _ _ p
    rw [Parser.items_eq p, Parser.items_eq q]
    generalize p.next = x at hp hi hlt ⊢
    generalize q.next = y at hp hi ⊢
    obtain ⟨i, p₁⟩ := x
    obtain ⟨i', q₁⟩ := y
    cases hi
    match i with
    | none => exact ⟨hp, rfl⟩
    | some (.error e) => exact ⟨hp, rfl⟩
    | some (.ok c) =>
      obtain ⟨hp₂, hi₂⟩ := ih _ (hlt rfl) hp rfl
      refine ⟨hp₂, ?_⟩
      dsimp only [Option.map_some, Relocation.item, List.map_cons] at hi₂ ⊢
      rw [hi₂]
      rfl

end Parsers

end Correspondence

end ShellScript
