import Mathlib.Data.List.Induction
import ShellScript.Proofs.Inputs

/-!
# Calls in any order

A lexer is asked for tokens, and a parser for commands or for the items of its iteration, one call after
the other. `serve` makes the calls and records what each one answers.

An iteration is over when a read has failed, but a command can be asked for still. If there is one, the
parser forgets the error and the iteration goes on. So whether `next` reads depends on the latest calls
(`Fused`), and not on whether any call ever failed (`serve_fused`).

On inputs on which nothing differs the same calls have the same answers (`Correspondence.Exact`).
-/

namespace ShellScript

/-! ## Calls on a lexer -/

namespace Lexer

variable {σ : Type} [Input σ]

/-- What a lexer is told when it is asked for a token. -/
structure Call where
  escape : EscapeSet
  commandOpen : Bool

/-- What a call answers, and where the lexer says that the token began and that it stands. -/
structure Reply where
  answer : Except ParseError (Option Token)
  start : Location
  location : Location

/-- Asks for one token after the other. -/
def serve (l : Lexer σ) : List Call → List Reply × Lexer σ
  | [] => ([], l)
  | c :: calls =>
    let (answer, l₁) := l.readToken c.escape c.commandOpen
    let (replies, l₂) := l₁.serve calls
    (⟨answer, l₁.startLocation, l₁.location⟩ :: replies, l₂)

/-- What every read of a token preserves holds after all calls. -/
theorem serve_induction {P : Lexer σ → Prop} {l : Lexer σ} (h : P l)
    (hread : ∀ l escape commandOpen, P l → P (l.readToken escape commandOpen).2) (calls : List Call) :
    P (l.serve calls).2 := by
  induction calls generalizing l with
  | nil => exact h
  | cons c calls ih => exact ih (hread l c.escape c.commandOpen h)

end Lexer

/-! ## Calls on a parser -/

namespace Parser

variable {σ : Type} [Input σ]

/-- What a parser can be asked for. -/
inductive Call
  /-- The next item of the iteration. -/
  | next
  | read
  | readWith (escape : EscapeSet)

/-- A call and what it answers: a command, none, or an error. -/
structure Reply where
  call : Call
  answer : Except ParseError (Option Command)

/-- Answers one call. -/
def call (p : Parser σ) : Call → Except ParseError (Option Command) × Parser σ
  | .next =>
    match p.next with
    | (none, p₁) => (.ok none, p₁)
    | (some (.ok command), p₁) => (.ok (some command), p₁)
    | (some (.error e), p₁) => (.error e, p₁)
  | .read => p.readCommand
  | .readWith escape => p.readCommandWith escape

/-- Answers one call after the other. -/
def serve (p : Parser σ) : List Call → List Reply × Parser σ
  | [] => ([], p)
  | c :: calls =>
    let (answer, p₁) := p.call c
    let (replies, p₂) := p₁.serve calls
    (⟨c, answer⟩ :: replies, p₂)

/-- Whether a call failed. -/
def Reply.Failed (r : Reply) : Prop := ∃ e, r.answer = .error e

/-- Whether the iteration is over: a call failed, and later ones asked for items only or failed too. -/
def Fused (replies : List Reply) : Prop :=
  ∃ before failure after, replies = before ++ failure :: after ∧ failure.Failed ∧
    ∀ r ∈ after, r.call = .next ∨ r.Failed

/-- Whether no item comes behind an error. -/
def StaysFused (replies : List Reply) : Prop :=
  ∀ before failure after, replies = before ++ failure :: after → failure.Failed →
    ∀ r ∈ after, r.call = .next → r.answer = .ok none

variable {p : Parser σ} {replies : List Reply} {r : Reply}

/-- The latest call decides, unless it asked for an item in vain. -/
theorem fused_concat : Fused (replies ++ [r]) ↔ r.Failed ∨ r.call = .next ∧ Fused replies := by
  constructor
  · rintro ⟨before, failure, after, hreplies, hfailure, hafter⟩
    rcases List.eq_nil_or_concat after with rfl | ⟨after, last, rfl⟩
    · obtain ⟨-, hlast⟩ := List.append_inj' hreplies rfl
      cases hlast
      exact .inl hfailure
    · rw [List.concat_eq_append, ← List.cons_append, ← List.append_assoc] at hreplies
      obtain ⟨rfl, hlast⟩ := List.append_inj' hreplies rfl
      cases hlast
      rcases hafter r (by simp) with hnext | hfailed
      · exact .inr ⟨hnext, before, failure, after, rfl, hfailure, fun r hr => hafter r (by simp [hr])⟩
      · exact .inl hfailed
  · rintro (hfailed | ⟨hnext, before, failure, after, rfl, hfailure, hafter⟩)
    · exact ⟨replies, r, [], rfl, hfailed, nofun⟩
    · refine ⟨before, failure, after ++ [r], by simp, hfailure, fun r' hr' => ?_⟩
      rcases List.mem_append.mp hr' with hr' | hr'
      · exact hafter r' hr'
      · exact .inl (List.mem_singleton.mp hr' ▸ hnext)

/-- A failed parser has no more items, and stays as it is. -/
theorem call_next_of_failed (h : p.failed = true) : p.call .next = (.ok none, p) := by
  simp only [call, next, h, if_true]

/-- Any other parser reads to find the next item. -/
theorem call_next_of_not_failed (h : p.failed = false) : p.call .next = p.call .read := by
  simp only [call, next, h, Bool.false_eq_true, if_false]
  rcases p.readCommand with ⟨_ | _ | _, _⟩ <;> rfl

/-- A read leaves a failed parser if and only if it fails. -/
theorem failed_readCommandWith (p : Parser σ) (escape : EscapeSet) :
    (p.readCommandWith escape).2.failed = true ↔ ∃ e, (p.readCommandWith escape).1 = .error e := by
  unfold readCommandWith
  rcases p.lexer.readCommand escape with ⟨_ | _, _⟩ <;> simp

/-- After a read on demand, a parser has failed if and only if the read did. -/
theorem failed_call_of_ne_next {c : Call} (h : c ≠ .next) :
    (p.call c).2.failed = true ↔ ∃ e, (p.call c).1 = .error e := by
  cases c with
  | next => exact (h rfl).elim
  | read => exact p.failed_readCommandWith p.escape
  | readWith escape => exact p.failed_readCommandWith escape

/-- A parser has failed after a call if the call failed, or if it had before and was asked for an item. -/
theorem failed_call (p : Parser σ) (c : Call) :
    (p.call c).2.failed = true ↔ (∃ e, (p.call c).1 = .error e) ∨ c = .next ∧ p.failed = true := by
  by_cases hc : c = .next
  · subst hc
    cases h : p.failed with
    | true => simp [call_next_of_failed h, h]
    | false => simp [call_next_of_not_failed h, failed_call_of_ne_next]
  · simp [failed_call_of_ne_next hc, hc]

/-- The calls up to the last one, and then the last one. -/
theorem serve_concat (p : Parser σ) (calls : List Call) (c : Call) :
    p.serve (calls ++ [c]) =
      ((p.serve calls).1 ++ [⟨c, ((p.serve calls).2.call c).1⟩], ((p.serve calls).2.call c).2) := by
  induction calls generalizing p with
  | nil => rfl
  | cons c' calls ih => simp only [List.cons_append, serve, ih]

/-- Every reply answers a call that was made after the calls before it. -/
theorem exists_call_of_serve {calls : List Call} {before after : List Reply}
    (h : (p.serve calls).1 = before ++ r :: after) :
    ∃ earlier, (p.serve earlier).1 = before ∧ r.answer = ((p.serve earlier).2.call r.call).1 := by
  induction before generalizing p calls with
  | nil =>
    cases calls with
    | nil => cases h
    | cons c calls =>
      cases (List.cons.inj h).1
      exact ⟨[], rfl, rfl⟩
  | cons first before ih =>
    cases calls with
    | nil => cases h
    | cons c calls =>
      obtain ⟨hfirst, htail⟩ := List.cons.inj h
      obtain ⟨earlier, hearlier, hanswer⟩ := ih htail
      exact ⟨c :: earlier, congrArg₂ List.cons hfirst hearlier, hanswer⟩

/-- The flag of a parser says that the iteration is over. -/
theorem failed_serve (h : p.failed = false) (calls : List Call) :
    (p.serve calls).2.failed = true ↔ Fused (p.serve calls).1 := by
  induction calls using List.reverseRecOn with
  | nil =>
    have hnot : ¬Fused [] := by
      rintro ⟨before, failure, after, hnil, -⟩
      simp at hnil
    simp [serve, h, hnot]
  | append_singleton calls c ih => rw [serve_concat, failed_call, fused_concat, ih]; rfl

/-- After any calls: while every read on demand since some error has failed too, `next` answers nothing and
changes nothing; otherwise it reads, whatever failed before. So no item comes behind an error if every read
on demand behind it fails too. -/
theorem serve_fused (input : σ) (filename : String) (escape : EscapeSet) (calls : List Call) :
    let (replies, p) := (ofInput input filename escape).serve calls
    (Fused replies → p.call .next = (.ok none, p)) ∧
      (¬Fused replies → p.call .next = p.call .read) ∧
      ((∀ before failure after, replies = before ++ failure :: after → failure.Failed →
        ∀ r ∈ after, r.call = .next ∨ r.Failed) → StaysFused replies) := by
  have hfailed := failed_serve (p := ofInput input filename escape) rfl
  refine ⟨fun h => call_next_of_failed ((hfailed calls).mpr h), fun h => ?_, fun hreads => ?_⟩
  · exact call_next_of_not_failed (Bool.eq_false_iff.mpr fun hp => h ((hfailed calls).mp hp))
  · rintro before failure after hreplies hfailure r hr hnext
    obtain ⟨between, rest, rfl⟩ := List.append_of_mem hr
    -- just before `r` the iteration was over
    rw [← List.cons_append, ← List.append_assoc] at hreplies
    obtain ⟨earlier, hearlier, hanswer⟩ := exists_call_of_serve hreplies
    have hfused : Fused ((ofInput input filename escape).serve earlier).1 :=
      hearlier ▸ ⟨before, failure, between, rfl, hfailure, fun r' hr' =>
        hreads before failure _ (by simpa using hreplies) hfailure r' (by simp [hr'])⟩
    rw [hanswer, hnext, call_next_of_failed ((hfailed earlier).mpr hfused)]

/-- In `a | b`, a newline and `c`, the pipe is an error. When a command is asked for, `b` is read behind
it, and then the iteration yields `c`. -/
theorem not_staysFused_pipe : ¬∀ (bytes : List UInt8) (escape : EscapeSet) (calls : List Call),
    StaysFused ((ofBytes bytes "s" escape).serve calls).1 := by
  intro h
  let p := ofBytes (Utf8.encode "a | b\nc") "s" .default
  have hpipe : (p.call .next).1 = .error (.unsupported "pipelines" ⟨"s", ⟨3, 1, 4⟩⟩) := by decide +kernel
  have hlast : ((p.serve [.next, .read]).2.call .next).1 ≠ .ok none := by decide +kernel
  exact hlast <| h (Utf8.encode "a | b\nc") .default [.next, .read, .next] [] _ _ rfl ⟨_, hpipe⟩
    ⟨.next, ((p.serve [.next, .read]).2.call .next).1⟩ (.tail _ (.head _)) rfl

end Parser

/-! ## The same calls on two inputs -/

namespace Correspondence.Exact

variable {σ τ : Type} [Input σ] [Input τ] {K : Correspondence σ τ}
variable {l : Lexer σ} {m : Lexer τ} {p : Parser σ} {q : Parser τ}

/-- Calls on corresponding lexers have the same answers. -/
theorem serve_tokens (hK : K.Exact) (h : K.Aligned l m) (calls : List Lexer.Call) :
    (m.serve calls).1 = (l.serve calls).1 := by
  induction calls generalizing l m with
  | nil => rfl
  | cons c calls ih =>
    obtain ⟨hanswer, sim⟩ := hK.readToken h c.escape c.commandOpen
    have hstart := sim.startLocation
    have hlocation := sim.toAligned.location
    rw [hK.relocation] at hstart hlocation
    simp only [Lexer.serve]
    rw [hanswer, hstart, hlocation, ih sim.toAligned]
    rfl

/-- A command read with chosen separators is the same, and the parsers still correspond after it. -/
theorem readCommandWith (hK : K.Exact) (h : K.Parsers p q) (escape : EscapeSet) :
    (q.readCommandWith escape).1 = (p.readCommandWith escape).1 ∧
      K.Parsers (p.readCommandWith escape).2 (q.readCommandWith escape).2 := by
  refine ⟨?_, (h.readCommandWith hK.endless escape).1⟩
  obtain ⟨hanswer, -⟩ := hK.readCommand h.lexer escape
  unfold Parser.readCommandWith
  generalize p.lexer.readCommand escape = x at hanswer ⊢
  generalize q.lexer.readCommand escape = y at hanswer ⊢
  obtain ⟨_ | _, _⟩ := x <;> obtain ⟨_ | _, _⟩ := y <;> cases hanswer <;> rfl

/-- Any call is answered the same, and the parsers still correspond after it. -/
theorem call (hK : K.Exact) (h : K.Parsers p q) (c : Parser.Call) :
    (q.call c).1 = (p.call c).1 ∧ K.Parsers (p.call c).2 (q.call c).2 := by
  cases c with
  | next =>
    have hnext := hK.next h
    unfold Parser.call
    generalize p.next = x at hnext ⊢
    generalize q.next = y at hnext ⊢
    obtain ⟨item, p₁⟩ := x
    obtain ⟨item', q₁⟩ := y
    obtain ⟨hitem, hparsers⟩ := hnext
    cases hitem
    rcases item with _ | _ | _ <;> exact ⟨rfl, hparsers⟩
  | read =>
    rw [Parser.call, Parser.call, Parser.readCommand, Parser.readCommand, h.escape]
    exact hK.readCommandWith h p.escape
  | readWith escape => exact hK.readCommandWith h escape

/-- Calls on corresponding parsers have the same answers. -/
theorem serve_commands (hK : K.Exact) (h : K.Parsers p q) (calls : List Parser.Call) :
    (q.serve calls).1 = (p.serve calls).1 := by
  induction calls generalizing p q with
  | nil => rfl
  | cons c calls ih =>
    obtain ⟨hanswer, hparsers⟩ := hK.call h c
    simp only [Parser.serve]
    rw [hanswer, ih hparsers]

end Correspondence.Exact

end ShellScript
