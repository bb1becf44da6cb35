import ShellScript.Proofs.Calls
import ShellScript.Proofs.Disturbances
import ShellScript.Proofs.Streaming

/-!
# How a stream is delivered

A stream may show its bytes in pieces, and requests may be interrupted. None of that can be told from what
is read: characters and bytes, tokens, commands and the run of a script are those of the same bytes in one
piece (`alike_of_interruptions`).
-/

namespace ShellScript

/-! ## The same readings on two inputs -/

namespace Correspondence

variable {σ τ : Type} [Input σ] [Input τ]

/-- A correspondence in which nothing differs, of inputs from which nothing was read before. -/
structure Fresh (K : Correspondence σ τ) : Prop extends K.Exact where
  earlier : K.earlier = []
  earlier' : K.earlier' = []

namespace Fresh

variable {K : Correspondence σ τ} {p : Parser σ} {q : Parser τ}

/-- What was reported is the same, and reading goes on without it. -/
theorem takeJournal (hK : K.Fresh) (h : K.Parsers p q) :
    q.takeJournal.1 = p.takeJournal.1 ∧ K.Parsers p.takeJournal.2 q.takeJournal.2 := by
  obtain ⟨new, hp, hq⟩ := h.lexer.journal
  have hevent : K.relocation.event = id := hK.relocation ▸ funext Relocation.same_event
  have hjournal : q.lexer.journal = p.lexer.journal := by
    rw [hp, hq, hK.earlier, hK.earlier', hevent, List.map_id]
  refine ⟨congrArg List.reverse hjournal, ⟨h.lexer.input, h.lexer.label, h.lexer.filename, [], ?_, ?_⟩,
    h.escape, h.failed⟩
  · rw [hK.earlier]
    rfl
  · rw [hK.earlier']
    rfl

/-- Parsers that correspond without a difference have the same readings. -/
theorem readings (hK : K.Fresh) (h : K.Parsers p q) : q.readings = p.readings := by
  induction hn : p.size using Nat.strongRecOn generalizing p q with
  | ind n ih =>
    subst hn
    have hlt := @Parser.size_next_lt _ _ p
    have hnext := hK.next h
    rw [Parser.readings_eq p, Parser.readings_eq q]
    generalize p.next = x at hnext hlt ⊢
    generalize q.next = y at hnext ⊢
    obtain ⟨item, p₁⟩ := x
    obtain ⟨item', q₁⟩ := y
    obtain ⟨hitem, hparsers⟩ := hnext
    cases hitem
    obtain ⟨hevents, hrest⟩ := hK.takeJournal hparsers
    match item with
    | none | some (.error e) =>
      dsimp only
      rw [hevents]
    | some (.ok c) =>
      dsimp only
      rw [hevents, ih _ (hlt rfl) hrest rfl]

end Fresh

end Correspondence

/-! ## Streams that are only interrupted -/

namespace Scanner

/-- A scanner on a stream that is interrupted at times, and the same one on the calm stream. -/
def Calmed (s t : Scanner) : Prop := t = s.calm ∧ s.reader.Patient

variable {s t : Scanner}

/-- Interruptions change no position. -/
theorem Calmed.position (h : Calmed s t) : t.position = s.position := by
  rw [h.1]
  rfl

/-- A read answers the same on the calm stream, and what it leaves there is the calm stream too. -/
theorem Calmed.read (h : Calmed s t) {α : Type} {read : Scanner → Except ReadError α × Scanner}
    (hread : Dependable read) : (read t).1 = (read s).1 ∧ Calmed (read s).2 (read t).2 := by
  obtain ⟨rfl, hpatient⟩ := h
  exact hread.of_patient hpatient

/-- Putting a character back is the same on the calm stream, of which it asks nothing. -/
theorem Calmed.unreadRune (h : Calmed s t) :
    t.unreadRune.1 = s.unreadRune.1 ∧ Calmed s.unreadRune.2 t.unreadRune.2 := by
  obtain ⟨rfl, hpatient⟩ := h
  rw [s.unreadRune_calm]
  exact ⟨rfl, rfl, s.reader_unreadRune ▸ hpatient⟩

/-- An input that never stops needs no character to be looked for behind its end. -/
theorem nextRune_of_false {s : Scanner} (h : False) : ∃ s', Input.nextRune s = (.ok none, s') ∧ False :=
  h.elim

end Scanner

/-- What is read from a stream that is interrupted at times is what is read from the calm stream. -/
def Correspondence.calm (label : String) : Correspondence Scanner Scanner where
  label
  relocation := .same
  rel := Scanner.Calmed
  position h := h.position
  nextRune h := .inl (h.read .nextRune)
  nextByte h := .inl (h.read .nextByte)
  peekByte h := .inl (h.read .peekByte)
  unreadRune {s t c s' t'} h hs ht := by
    have hread := h.read .nextRune
    rw [show s.nextRune = _ from hs, show t.nextRune = _ from ht] at hread
    exact hread.2.unreadRune.2
  stop_nextRune := @Scanner.nextRune_of_false

namespace Correspondence

/-- Nothing else differs between a stream and the calm one. -/
theorem fresh_calm (label : String) : (calm label).Fresh := ⟨⟨rfl, fun _ => id⟩, rfl, rfl⟩

variable {s t : Scanner}

/-- Lexers that have just begun correspond. -/
theorem aligned_calm (h : s.Calmed t) (label : String) :
    (calm label).Aligned (.ofInput s label) (.ofInput t label) :=
  ⟨h, rfl, rfl, [], rfl, rfl⟩

/-- So do parsers. -/
theorem parsers_calm (h : s.Calmed t) (label : String) (escape : EscapeSet) :
    (calm label).Parsers (.ofInput s label escape) (.ofInput t label escape) :=
  ⟨aligned_calm h label, rfl, rfl⟩

end Correspondence

namespace Scanner

variable {s t : Scanner}

/-- Whatever both scanners are asked for, they answer the same. -/
theorem Calmed.ask (h : Calmed s t) (request : Request) :
    (Input.ask t request).1 = (Input.ask s request).1 ∧
      Calmed (Input.ask s request).2 (Input.ask t request).2 := by
  cases request with
  | nextRune => exact (h.read .nextRune).imp_left (congrArg (Except.map Answer.rune))
  | nextByte => exact (h.read .nextByte).imp_left (congrArg (Except.map Answer.byte))
  | peekByte => exact (h.read .peekByte).imp_left (congrArg (Except.map Answer.byte))
  | unreadRune => exact h.unreadRune.imp_left (congrArg fun yes => Except.ok (Answer.flag yes))
  | skipToNewline =>
    rcases Correspondence.Sim.tally_skipToNewline (K := .calm "") h with hread | ⟨-, hstop⟩
    · exact hread.imp_left (congrArg (Except.map Answer.flag))
    · exact hstop.elim

/-- A conversation goes the same way on the calm stream. -/
theorem Calmed.converse (h : Calmed s t) (history : List Exchange) (requests : List Request) :
    (Input.converse history t requests).1 = (Input.converse history s requests).1 := by
  induction requests generalizing s t history with
  | nil => rfl
  | cons request requests ih =>
    obtain ⟨hanswer, hafter⟩ := h.ask request
    have hexchange : Input.exchange t request = Input.exchange s request :=
      Input.exchange_congr hanswer h.position hafter.position
    rw [Input.converse, Input.converse, hexchange]
    exact ih hafter _

/-- Scanners that cannot be told apart by what is read from them. -/
structure Alike (s t : Scanner) : Prop where
  /-- Characters, bytes and the positions around each of them. -/
  scanning : ∀ requests, (Input.converse [] s requests).1 = (Input.converse [] t requests).1
  /-- Tokens, errors, and where they begin and end. -/
  lexing : ∀ filename calls,
    ((Lexer.ofInput s filename).serve calls).1 = ((Lexer.ofInput t filename).serve calls).1
  /-- Commands that are asked for one by one, with any escape sets. -/
  parsing : ∀ filename escape calls, ((Parser.ofInput s filename escape).serve calls).1 =
    ((Parser.ofInput t filename escape).serve calls).1
  /-- The iteration over the commands. -/
  items : ∀ filename escape,
    (Parser.ofInput s filename escape).items.1 = (Parser.ofInput t filename escape).items.1
  /-- The result of a script and all that it does. -/
  running : ∀ [Output] (session : Session) filename run, session.run s filename run = session.run t filename run

/-- However large the pieces are in which a stream is delivered, and whatever interruptions stand in it, it
is read as its bytes in one piece are. -/
theorem alike_of_interruptions (bytes : List UInt8) {chunk : Option Nat} (hchunk : chunk ≠ some 0)
    {faults : List Fault} (hfaults : ∀ fault ∈ faults, fault.kind = .interruption) :
    Alike (ofReader { unread := bytes, chunk, faults }) (ofReader { unread := bytes }) := by
  have h : Calmed (ofReader { unread := bytes, chunk, faults }) (ofReader { unread := bytes }) :=
    ⟨rfl, hchunk, hfaults⟩
  have hfresh := Correspondence.fresh_calm
  have hparsers := Correspondence.parsers_calm h
  refine ⟨fun requests => (h.converse [] requests).symm, fun filename calls => ?_,
    fun filename escape calls => ?_, fun filename escape => ?_, fun session filename run => ?_⟩
  · exact ((hfresh filename).serve_tokens (Correspondence.aligned_calm h filename) calls).symm
  · exact ((hfresh filename).serve_commands (hparsers filename escape) calls).symm
  · exact ((hfresh filename).items (hparsers filename escape)).1.symm
  · rw [session.run_apply, session.run_apply, (hfresh filename).readings (hparsers filename session.escape)]

/-- A byte at a time, and with interruptions before and within it, a character of two bytes is read. -/
theorem alike_of_interruptions_bytewise :
    let faults : List Fault := [⟨0, .interruption⟩, ⟨1, .interruption⟩, ⟨1, .interruption⟩]
    let s := ofReader { unread := [0xC3, 0xA9], chunk := some 1, faults }
    some 1 ≠ some 0 ∧ (∀ fault ∈ faults, fault.kind = .interruption) ∧
      s.nextRune.1 = .ok (some 'é') ∧ Alike s (ofReader { unread := [0xC3, 0xA9] }) := by
  intro faults s
  have hchunk : some 1 ≠ some 0 := by decide
  have hfaults : ∀ fault ∈ faults, fault.kind = .interruption := by decide
  exact ⟨hchunk, hfaults, by decide +kernel, alike_of_interruptions [0xC3, 0xA9] hchunk hfaults⟩

end Scanner

end ShellScript
