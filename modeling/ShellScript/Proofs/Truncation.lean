import ShellScript.Proofs.Inputs
import ShellScript.Proofs.Scripts

/-!
# Texts that are cut off

Where a text ends too early, its parser fails for want of more, or it has read what it also reads when
more follows. So an error that is not for want of input is there however the text goes on, and no
beginning of a text that is accepted has such an error (`Parser.items_append_of_error`).
-/

namespace ShellScript

/-- Whether an error is another one. Whether a pipe is half of a double pipe may depend on more text, so
the place of a pipeline may differ. -/
def ParseError.Persists (e e' : ParseError) : Prop :=
  e' = e ∨ ∃ l l', e = .unsupported "pipelines" l ∧ e' = .unsupported "pipelines" l'

namespace Correspondence

open Lexer

variable {label : String} {whole more : List UInt8} {hwhole : Utf8.Complete whole}
variable {escape : EscapeSet} {l l' m : Lexer Cursor}

/-- A command that does not use up the shorter text is the same in the longer one. -/
theorem Aligned.readCommand_extended (h : (extended label hwhole more).Aligned l m) {c : Option Command}
    (hl : l.readCommand escape = (.ok c, l')) (hrest : l'.input.rest ≠ []) :
    ∃ m', m.readCommand escape = (.ok c, m') ∧ (extended label hwhole more).Aligned l' m' := by
  have hr := h.readCommand escape
  rw [hl] at hr
  generalize Lexer.readCommand escape m = y at hr ⊢
  cases hr with
  | @ok _ c' _ m' value sim =>
    have hc : c' = c := by
      rw [value]
      cases c with
      | none => rfl
      | some c => exact congrArg some (Relocation.same_command c)
    exact ⟨m', by rw [hc], sim.toAligned⟩
  | cut stopped => exact (hrest stopped).elim

/-- An error that is not for want of input does not depend on what follows. -/
theorem Aligned.readCommand_error (h : (extended label hwhole more).Aligned l m) {e : ParseError}
    (hl : l.readCommand escape = (.error e, l')) (he : e.endsEarly = false) :
    ∃ e' m', m.readCommand escape = (.error e', m') ∧ e.Persists e' := by
  have hr := h.readCommand escape
  rw [hl] at hr
  generalize Lexer.readCommand escape m = y at hr ⊢
  cases hr with
  | @error _ _ m' sim => exact ⟨_, m', rfl, .inl (Relocation.same_error e)⟩
  | broken stopped cause =>
    rw [he] at cause
    cases cause
  | @piped p q _ m' stopped => exact ⟨_, m', rfl, .inr ⟨p, q, rfl, rfl⟩⟩

/-- Parsers on a text and on one that goes on: up to an error that is not for want of input they yield
the same. -/
theorem Parsers.items_of_error {p q : Parser Cursor} (h : (extended label hwhole more).Parsers p q)
    (hq : q.failed = false) {cs : List Command} {e : ParseError}
    (hp : p.items.1 = cs.map .ok ++ [.error e]) (he : e.endsEarly = false) :
    ∃ e', q.items.1 = cs.map .ok ++ [.error e'] ∧ e.Persists e' := by
  induction cs generalizing p q with
  | nil =>
    obtain ⟨l, hl, -⟩ := Parser.readCommand_of_items_error hp
    obtain ⟨e', m, hm, hpersists⟩ := h.lexer.readCommand_error hl he
    refine ⟨e', ?_, hpersists⟩
    rw [Parser.items_of_readCommand hq, h.escape, hm]
    rfl
  | cons c cs ih =>
    obtain ⟨l, hl, hitems⟩ := Parser.readCommand_of_items hp
    -- the items that follow are read from what is left of the text
    have hrest : l.input.rest ≠ [] := by
      intro hnil
      have hnone := Parser.items_of_rest (p := { p with lexer := l, failed := false }) hnil
      rw [hitems] at hnone
      simp at hnone
    obtain ⟨m, hm, sim⟩ := h.lexer.readCommand_extended hl hrest
    obtain ⟨e', hq', hpersists⟩ := ih (p := { p with lexer := l, failed := false })
      (q := { q with lexer := m, failed := false }) ⟨sim, h.escape, rfl⟩ rfl hitems
    refine ⟨e', ?_, hpersists⟩
    rw [Parser.items_of_readCommand hq, h.escape, hm]
    dsimp only
    rw [← h.escape, hq']
    rfl

/-- Parsers before the first character of a text and of one that begins with it. -/
theorem parsers_extended (label : String) (escape : EscapeSet) (p t : String) :
    (extended label (Utf8.complete_encodeChars p.toList) (Utf8.encode t)).Parsers
      (.ofCursor (Utf8.encode p) label escape) (.ofCursor (Utf8.encode (p ++ t)) label escape) := by
  have happend : Utf8.encode (p ++ t) = Utf8.encode p ++ Utf8.encode t := by simp [Utf8.encode]
  rw [happend]
  exact ⟨(sim_extended label (Utf8.complete_encodeChars p.toList) (Utf8.encode t)).toAligned, rfl, rfl⟩

end Correspondence

namespace Parser

/-- A collection fails with the error that ends the iteration. -/
theorem items_of_collect_error {σ : Type} [Input σ] {p : Parser σ} {e : ParseError}
    (h : p.collect.1 = .error e) : ∃ cs : List Command, p.items.1 = cs.map .ok ++ [.error e] := by
  unfold collect at h
  dsimp only at h
  generalize hitems : p.items.1 = is at h ⊢
  induction is generalizing p with
  | nil => cases h
  | cons item is ih =>
    cases item with
    | error e' =>
      obtain ⟨l, -, rfl⟩ := readCommand_of_items_error hitems
      cases h
      exact ⟨[], rfl⟩
    | ok c =>
      obtain ⟨l, -, hrest⟩ := readCommand_of_items hitems
      -- a command is collected, so the failure is one of what stands behind it
      have htail : is.mapM id = .error e := by
        rw [List.mapM_cons] at h
        cases hm : is.mapM id with
        | error e' =>
          rw [hm] at h
          exact h
        | ok cs =>
          rw [hm] at h
          cases h
      obtain ⟨cs, rfl⟩ := ih hrest htail
      exact ⟨c :: cs, rfl⟩

/-- Errors that are not for want of input are final. If a text has such an error, then so has every text
that begins with it, behind the same commands. In particular, a text that begins one that is accepted
can only fail for want of input. -/
theorem items_append_of_error (escape : EscapeSet) (filename p t : String) :
    (∀ (cs : List Command) (e : ParseError),
      (ofBytes (Utf8.encode p) filename escape).items.1 = cs.map .ok ++ [.error e] →
      e.endsEarly = false →
      ∃ e', (ofBytes (Utf8.encode (p ++ t)) filename escape).items.1 =
        cs.map .ok ++ [.error e'] ∧ e.Persists e') ∧
    (∀ (ds : List Command) (e : ParseError),
      (ofBytes (Utf8.encode (p ++ t)) filename escape).collect.1 = .ok ds →
      (ofBytes (Utf8.encode p) filename escape).collect.1 = .error e → e.endsEarly = true) := by
  have hfinal (cs : List Command) (e : ParseError)
      (h : (ofBytes (Utf8.encode p) filename escape).items.1 = cs.map .ok ++ [.error e])
      (he : e.endsEarly = false) :
      ∃ e', (ofBytes (Utf8.encode (p ++ t)) filename escape).items.1 =
        cs.map .ok ++ [.error e'] ∧ e.Persists e' := by
    rw [items_ofBytes] at h ⊢
    exact (Correspondence.parsers_extended filename escape p t).items_of_error rfl h he
  refine ⟨hfinal, fun ds e hds he => ?_⟩
  obtain ⟨cs, hcs⟩ := items_of_collect_error he
  -- a final error would be one of the longer text too, which has none
  by_contra hearly
  obtain ⟨e', he', -⟩ := hfinal cs e hcs (by simpa using hearly)
  rw [collect_eq_ok] at hds
  have hmem : Except.error e' ∈ ds.map (Except.ok (ε := ParseError)) := by
    rw [← hds, he']
    simp
  simp at hmem

/-- `a;b |` is an error that says where it stands, and with `|c` behind it the pipe is a double one. -/
theorem items_append_of_error_pipe : ∃ (c : Command) (l : Location),
    (ofBytes (Utf8.encode "a;b |") "s" .default).items.1 =
      [c].map .ok ++ [.error (.unsupported "pipelines" l)] ∧
    (ParseError.unsupported "pipelines" l).endsEarly = false ∧
    ∃ e', (ofBytes (Utf8.encode ("a;b |" ++ "|c")) "s" .default).items.1 =
      [c].map .ok ++ [.error e'] ∧ (ParseError.unsupported "pipelines" l).Persists e' := by
  let c : Command := ⟨[⟨[.literal ⟨"a", ⟨"s", .start⟩⟩]⟩], some .semicolon, ⟨"s", .start⟩⟩
  let l : Location := ⟨"s", ⟨5, 1, 6⟩⟩
  have hitems : (ofBytes (Utf8.encode "a;b |") "s" .default).items.1 =
      [c].map .ok ++ [.error (.unsupported "pipelines" l)] := by
    decide +kernel
  have hearly : (ParseError.unsupported "pipelines" l).endsEarly = false := rfl
  exact ⟨c, l, hitems, hearly, (items_append_of_error .default "s" "a;b |" "|c").1 [c] _ hitems hearly⟩

end Parser

end ShellScript
