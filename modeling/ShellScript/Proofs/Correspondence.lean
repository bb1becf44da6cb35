import ShellScript.Proofs.Relocation

/-!
# Corresponding inputs

Two inputs correspond when the same reads answer the same on both. A `Correspondence` is such a relation,
with what may still differ: positions (a `Relocation`), the events that were in the journals before, and
what happens once the left input is over. The right input may hold more than the left one, so a read at
the end of the left input is not compared; the left input then `stop`s, for good.

`Agree` compares two reads of two lexers. `iterate_agree` lifts it from the step of a loop to the loop, so
that whatever is made of corresponding reads agrees.
-/

namespace ShellScript

/-- What reads of two inputs have in common: the answer, unless the left input was over and the left
read answered what reads answer then. -/
def Tally {σ τ α : Type} (rel : σ → τ → Prop) (stop : σ → Prop) (last : α)
    (x : Except ReadError α × σ) (y : Except ReadError α × τ) : Prop :=
  y.1 = x.1 ∧ rel x.2 y.2 ∨ x.1 = .ok last ∧ stop x.2

/-- A relation between inputs that reading preserves. -/
structure Correspondence (σ τ : Type) [Input σ] [Input τ] where
  /-- The label of both texts. -/
  label : String
  relocation : Relocation
  rel : σ → τ → Prop
  /-- Whether the left input is over and reads of the right one are no longer compared. -/
  stop : σ → Prop := fun _ => False
  /-- The journals of the two lexers before the reads that are compared. -/
  earlier : List Event := []
  earlier' : List Event := []
  position : ∀ {s t}, rel s t → Input.position t = relocation.position (Input.position s)
  nextRune : ∀ {s t}, rel s t → Tally rel stop none (Input.nextRune s) (Input.nextRune t)
  nextByte : ∀ {s t}, rel s t → Tally rel stop none (Input.nextByte s) (Input.nextByte t)
  peekByte : ∀ {s t}, rel s t → Tally rel stop none (Input.peekByte s) (Input.peekByte t)
  /-- Putting back is compared only where lexers do it, after a character was read. -/
  unreadRune : ∀ {s t c s' t'}, rel s t → Input.nextRune s = (.ok (some c), s') →
    Input.nextRune t = (.ok (some c), t') → rel (Input.unreadRune s').2 (Input.unreadRune t').2
  stop_nextRune : ∀ {s}, stop s → ∃ s', Input.nextRune s = (.ok none, s') ∧ stop s' := by simp

/-- Whether an error says that the input ended too early. -/
def ParseError.endsEarly : ParseError → Bool
  | unterminatedQuote _ _ | unexpectedEof _ _ => true
  | _ => false

namespace Correspondence

open Lexer

variable {σ τ : Type} [Input σ] [Input τ] (K : Correspondence σ τ)
variable {α β α' β' : Type}

/-- Lexers on corresponding inputs, which reported corresponding events. -/
structure Aligned (l : Lexer σ) (m : Lexer τ) : Prop where
  input : K.rel l.input m.input
  label : l.filename = K.label
  filename : m.filename = l.filename
  journal : ∃ new, l.journal = new ++ K.earlier ∧
    m.journal = new.map K.relocation.event ++ K.earlier'

/-- Aligned lexers within the same token. -/
structure Sim (l : Lexer σ) (m : Lexer τ) : Prop extends K.Aligned l m where
  tokenStart : m.tokenStart = K.relocation.position l.tokenStart

/-- What two reads have in common: the answers are related by `v`, or the errors correspond. If the left
input is over before the left read is, the read fails for want of input, or it answers what `o` allows
beside the right result. A pipe at the end of the left input may be half of a double pipe on the right; a
command fails at either. -/
inductive Agree (v : α → α' → Prop) (o : α → Except ParseError α' → Prop) :
    Read σ α → Read τ α' → Prop
  | ok {a b l m} (value : v a b) (sim : K.Sim l m) : Agree v o (.ok a, l) (.ok b, m)
  | error {e l m} (sim : K.Sim l m) : Agree v o (.error e, l) (.error (K.relocation.error e), m)
  | cut {a l y} (stopped : K.stop l.input) (value : o a y.1) : Agree v o (.ok a, l) y
  | broken {e l y} (stopped : K.stop l.input) (cause : e.endsEarly = true) :
    Agree v o (.error e, l) y
  | piped {p q l m} (stopped : K.stop l.input) :
    Agree v o (.error (.unsupported "pipelines" p), l) (.error (.unsupported "pipelines" q), m)

variable {K} {l : Lexer σ} {m : Lexer τ}

/-- Reads that pass errors on agree if they do so after what they have read first. -/
theorem Agree.bind {v : α → α' → Prop} {o : α → Except ParseError α' → Prop} {w : β → β' → Prop}
    {o' : β → Except ParseError β' → Prop} {x : Read σ α} {y : Read τ α'} (h : K.Agree v o x y)
    {f : Read σ α → Read σ β} {f' : Read τ α' → Read τ β'}
    (hf : ∀ e l, f (.error e, l) = (.error e, l)) (hf' : ∀ e m, f' (.error e, m) = (.error e, m))
    (hok : ∀ a b l m, x = (.ok a, l) → y = (.ok b, m) → v a b → K.Sim l m →
      K.Agree w o' (f (.ok a, l)) (f' (.ok b, m)))
    (hcut : ∀ a l, K.stop l.input → o a y.1 → K.Agree w o' (f (.ok a, l)) (f' y)) :
    K.Agree w o' (f x) (f' y) := by
  cases h with
  | ok value sim => exact hok _ _ _ _ rfl rfl value sim
  | error sim => rw [hf, hf']; exact .error sim
  | cut stopped value => exact hcut _ _ stopped value
  | broken stopped cause => rw [hf]; exact .broken stopped cause
  | piped stopped => rw [hf, hf']; exact .piped stopped

/-- After a read that is never cut short, only its answers are left to compare. -/
theorem Agree.bind_ok {v : α → α' → Prop} {w : β → β' → Prop} {o : β → Except ParseError β' → Prop}
    {x : Read σ α} {y : Read τ α'} (h : K.Agree v (fun _ _ => False) x y)
    {f : Read σ α → Read σ β} {f' : Read τ α' → Read τ β'}
    (hf : ∀ e l, f (.error e, l) = (.error e, l)) (hf' : ∀ e m, f' (.error e, m) = (.error e, m))
    (hok : ∀ a b l m, v a b → K.Sim l m → K.Agree w o (f (.ok a, l)) (f' (.ok b, m))) :
    K.Agree w o (f x) (f' y) :=
  h.bind hf hf' (fun a b l m _ _ => hok a b l m) fun _ _ _ value => value.elim

/-- A read that answers what is not compared with anything is followed by the right one. -/
theorem Agree.of_ok {v : α → α' → Prop} {o : α → Except ParseError α' → Prop} {y : Read τ α'} {a : α}
    (h : K.Agree v o (.ok a, l) y) (ho : ∀ y, ¬ o a y) :
    ∃ b m, y = (.ok b, m) ∧ v a b ∧ K.Sim l m := by
  cases h with
  | ok value sim => exact ⟨_, _, rfl, value, sim⟩
  | cut stopped value => exact (ho _ value).elim

/-- Errors correspond if the right one is the left one moved. -/
theorem Agree.error_of_eq {v : α → α' → Prop} {o : α → Except ParseError α' → Prop}
    {e e' : ParseError} (h : K.Sim l m) (he : e' = K.relocation.error e) :
    K.Agree v o (.error e, l) (.error e', m) :=
  he ▸ .error h

/-! ## Single reads -/

namespace Aligned

/-- Aligned lexers stand at corresponding positions. -/
theorem position (h : K.Aligned l m) : m.position = K.relocation.position l.position :=
  K.position h.input

/-- A position of the left text has a place that corresponds to the moved position's. -/
theorem place (h : K.Aligned l m) (p : Position) :
    m.place (K.relocation.position p) = K.relocation.location (l.place p) := by
  simp only [Lexer.place, h.filename, Relocation.location]

/-- The same for where the lexers stand. -/
theorem location (h : K.Aligned l m) : m.location = K.relocation.location l.location := by
  rw [Lexer.location, h.position, h.place]
  rfl

/-- A token begins where the lexers stand. -/
theorem begin (h : K.Aligned l m) :
    K.Sim { l with tokenStart := l.position } { m with tokenStart := m.position } :=
  ⟨⟨h.input, h.label, h.filename, h.journal⟩, h.position⟩

/-- Corresponding events may be noted on both sides. -/
theorem note (h : K.Aligned l m) (e : Event) :
    K.Aligned (l.note e) (m.note (K.relocation.event e)) := by
  obtain ⟨new, hl, hm⟩ := h.journal
  refine ⟨h.input, h.label, h.filename, e :: new, ?_, ?_⟩
  · simp [Lexer.note, hl]
  · simp [Lexer.note, hm]

end Aligned

/-- Skipping a line, one byte at a time. -/
theorem skipToNewline_eq (s : σ) :
    Input.skipToNewline s = match Input.peekByte s with
      | (.error e, s₁) => (.error e, s₁)
      | (.ok none, s₁) => (.ok false, s₁)
      | (.ok (some b), s₁) =>
        if b = 0x0A then (.ok true, s₁)
        else match Input.nextByte s₁ with
          | (.error e, s₂) => (.error e, s₂)
          | (.ok none, s₂) => (.ok false, s₂)
          | (.ok (some _), s₂) => Input.skipToNewline s₂ := by
  rw [Input.skipToNewline]
  split <;> simp_all
  split
  · rfl
  · split <;> simp_all

namespace Sim

/-- Corresponding inputs may take the place of others. -/
theorem withInput (h : K.Sim l m) {s : σ} {t : τ} (hr : K.rel s t) :
    K.Sim { l with input := s } { m with input := t } :=
  ⟨⟨hr, h.label, h.filename, h.journal⟩, h.tokenStart⟩

/-- Noting events keeps lexers within the same token. -/
theorem note (h : K.Sim l m) (e : Event) : K.Sim (l.note e) (m.note (K.relocation.event e)) :=
  ⟨h.toAligned.note e, h.tokenStart⟩

/-- The latest tokens began at corresponding places. -/
theorem startLocation (h : K.Sim l m) :
    m.startLocation = K.relocation.location l.startLocation := by
  rw [Lexer.startLocation, h.tokenStart, h.place]
  rfl

/-- A failed read is an error at the position that was reached. -/
theorem error_lift (h : K.Sim l m) {s : σ} {t : τ} (hr : K.rel s t) (e : ReadError) :
    K.relocation.error (.read e.message (Lexer.location { l with input := s })) =
      .read e.message (Lexer.location { m with input := t }) := by
  rw [(h.withInput hr).location]
  rfl

/-- Corresponding reads of the inputs are corresponding reads of the lexers. -/
theorem lift (h : K.Sim l m) {last : α} {x : Except ReadError α × σ} {y : Except ReadError α × τ}
    (ht : Tally K.rel K.stop last x y) :
    K.Agree Eq (fun a _ => a = last) (l.lift x) (m.lift y) := by
  obtain ⟨r, s⟩ := x
  obtain ⟨r', t⟩ := y
  rcases ht with ⟨hv, hr⟩ | ⟨hv, hs⟩
  · cases hv
    cases r with
    | ok a => exact .ok rfl (h.withInput hr)
    | error e =>
      have he := h.error_lift hr e
      simp only [Lexer.lift] at he ⊢
      rw [← he]
      exact .error (h.withInput hr)
  · cases hv
    exact .cut hs rfl

/-- The same character is read, unless the left input is over. -/
theorem nextRune (h : K.Sim l m) : K.Agree Eq (fun a _ => a = none) l.nextRune m.nextRune :=
  h.lift (K.nextRune h.input)

/-- So is the same byte. -/
theorem nextByte (h : K.Sim l m) : K.Agree Eq (fun a _ => a = none) l.nextByte m.nextByte :=
  h.lift (K.nextByte h.input)

/-- Lexers that read the same character put back the same. -/
theorem unreadRune (h : K.Sim l m) {c : Char} {l' : Lexer σ} {m' : Lexer τ}
    (hl : l.nextRune = (.ok (some c), l')) (hm : m.nextRune = (.ok (some c), m'))
    (h' : K.Sim l' m') : K.Sim l'.unreadRune m'.unreadRune :=
  h'.withInput (K.unreadRune h.input (lift_eq_ok hl) (lift_eq_ok hm))

/-- Inputs that correspond still do when a line is skipped. -/
theorem tally_skipToNewline {s : σ} {t : τ} (h : K.rel s t) :
    Tally K.rel K.stop false (Input.skipToNewline s) (Input.skipToNewline t) := by
  -- on the bytes that are left: a byte that is no newline is looked at and then taken
  induction hn : Input.size s using Nat.strongRecOn generalizing s t with
  | ind n ih =>
    subst hn
    have hp := K.peekByte h
    have hsize := Input.size_peekByte_le s
    rw [skipToNewline_eq s, skipToNewline_eq t]
    generalize Input.peekByte s = x at hp hsize ⊢
    generalize Input.peekByte t = y at hp ⊢
    obtain ⟨r, s₁⟩ := x
    obtain ⟨r', t₁⟩ := y
    rcases hp with ⟨hv, hr⟩ | ⟨hv, hs⟩
    · cases hv
      rcases r with e | _ | b
      · exact .inl ⟨rfl, hr⟩
      · exact .inl ⟨rfl, hr⟩
      · dsimp only at hr hsize ⊢
        split
        · exact .inl ⟨rfl, hr⟩
        · have hb := K.nextByte hr
          have hlt := @Input.size_nextByte_lt _ _ s₁
          generalize Input.nextByte s₁ = x at hb hlt ⊢
          generalize Input.nextByte t₁ = y at hb ⊢
          obtain ⟨r, s₂⟩ := x
          obtain ⟨r', t₂⟩ := y
          rcases hb with ⟨hv, hr₂⟩ | ⟨hv, hs⟩
          · cases hv
            rcases r with e | _ | b
            · exact .inl ⟨rfl, hr₂⟩
            · exact .inl ⟨rfl, hr₂⟩
            · exact ih _ (Nat.lt_of_lt_of_le (hlt rfl) hsize) hr₂ rfl
          · cases hv
            exact .inr ⟨rfl, hs⟩
    · cases hv
      exact .inr ⟨rfl, hs⟩

/-- Skipping a line finds the newline on both sides, or the left input is over before it. -/
theorem skipToNewline (h : K.Sim l m) :
    K.Agree Eq (fun a _ => a = false) l.skipToNewline m.skipToNewline :=
  h.lift (tally_skipToNewline h.input)

end Sim

/-! ## Reads at the end of the left input -/

/-- At the end of the left input there is no character. -/
theorem nextRune_of_stop (h : K.stop l.input) :
    ∃ l', l.nextRune = (.ok none, l') ∧ K.stop l'.input ∧ l'.filename = l.filename := by
  obtain ⟨s', hs, hs'⟩ := K.stop_nextRune h
  exact ⟨{ l with input := s' }, by simp [Lexer.nextRune, hs, Lexer.lift], hs', rfl⟩

/-! ## Loops -/

/-- What the steps of two loops have in common, given what their states and answers do. -/
inductive Progressed (v : α → α' → Prop) (w : β → β' → Prop) :
    Progress α β → Progress α' β' → Prop
  | more {a a'} (state : v a a') : Progressed v w (.more a) (.more a')
  | done {b b'} (answer : w b b') : Progressed v w (.done b) (.done b')

/-- What the step of a loop may come to when the left input is over. -/
def Stalled (o : α → Prop) (u : β → Except ParseError β' → Prop) :
    Progress α β → Except ParseError (Progress α' β') → Prop
  | .more a, _ => o a
  | .done b, .ok (.done b') => u b (.ok b')
  | .done b, .error e => u b (.error e)
  | .done b, .ok (.more _) => ∀ y, u b y

/-- A loop that is over whatever the right side does has stalled as it may. -/
theorem stalled_done {o : α → Prop} {u : β → Except ParseError β' → Prop} {b : β}
    (h : ∀ y, u b y) (y : Except ParseError (Progress α' β')) : Stalled o u (.done b) y := by
  rcases y with e | _ | b'
  · exact h _
  · exact h
  · exact h _

/-- What a loop whose state satisfies `o` comes to when the left input is over: it ends in one step. -/
def EndsAt (K : Correspondence σ τ) (o : α → Prop) (u : β → Except ParseError β' → Prop)
    (step : α → Lexer σ → Read σ (Progress α β)) : Prop :=
  ∀ a l, o a → K.stop l.input → K.stop (step a l).2.input ∧
    match (step a l).1 with
    | .ok (.more _) => False
    | .ok (.done b) => ∀ y, u b y
    | .error e => e.endsEarly = true

/-- Such a loop agrees with whatever the right input leads to. -/
theorem EndsAt.iterate {step : α → Lexer σ → Read σ (Progress α β)}
    {takes : ∀ {a a' l l'}, step a l = (.ok (.more a'), l') → l'.size < l.size}
    {w : β → β' → Prop} {o : α → Prop} {u : β → Except ParseError β' → Prop}
    (hend : K.EndsAt o u step) {a : α} (ha : o a) (h : K.stop l.input) (y : Read τ β') :
    K.Agree w u (Lexer.iterate step takes a l) y := by
  have hlast := hend a l ha h
  rw [iterate_eq]
  generalize step a l = z at hlast ⊢
  obtain ⟨z, l'⟩ := z
  obtain ⟨hstop, hz⟩ := hlast
  rcases z with e | a' | b
  · exact .broken hstop hz
  · exact hz.elim
  · exact .cut hstop (hz _)

/-- Loops agree if their steps do. -/
theorem iterate_agree {step : α → Lexer σ → Read σ (Progress α β)}
    {step' : α' → Lexer τ → Read τ (Progress α' β')}
    {takes : ∀ {a a' l l'}, step a l = (.ok (.more a'), l') → l'.size < l.size}
    {takes' : ∀ {a a' l l'}, step' a l = (.ok (.more a'), l') → l'.size < l.size}
    {v : α → α' → Prop} {w : β → β' → Prop} {o : α → Prop}
    {u : β → Except ParseError β' → Prop}
    (hstep : ∀ {a a' l m}, v a a' → K.Sim l m →
      K.Agree (Progressed v w) (Stalled o u) (step a l) (step' a' m))
    (hend : K.EndsAt o u step) {a : α} {a' : α'} (ha : v a a') (h : K.Sim l m) :
    K.Agree w u (iterate step takes a l) (iterate step' takes' a' m) := by
  induction hn : l.size using Nat.strongRecOn generalizing a a' l m with
  | ind n ih =>
    subst hn
    have hs := hstep ha h
    rw [iterate_eq, iterate_eq]
    have ht := @takes a
    generalize hx : step a l = x at hs ⊢
    generalize step' a' m = y at hs ⊢
    cases hs with
    | ok value sim =>
      cases value with
      | more state => exact ih _ (ht hx) state sim rfl
      | done answer => exact .ok answer sim
    | error sim => exact .error sim
    | broken stopped cause => exact .broken stopped cause
    | piped stopped => exact .piped stopped
    | @cut p l₁ y stopped value =>
      cases p with
      | done b =>
        refine .cut stopped ?_
        obtain ⟨y, m₁⟩ := y
        rcases y with e | a' | b'
        · exact value
        · exact value _
        · exact value
      | more a₁ =>
        -- the left loop goes on at the end of its input, where it takes one more step
        exact hend.iterate value stopped _

end Correspondence

end ShellScript
