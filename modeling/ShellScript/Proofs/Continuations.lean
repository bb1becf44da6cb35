import ShellScript.Proofs.Landing
import ShellScript.Proofs.Sources

/-!
# Texts with more behind them

A text that can be read, and a longer one that begins with it, are read alike up to where the shorter text
ends. There a word may be open, and a command. What comes of them in the longer text depends on what
follows; a `Continuation` says it of words and of commands, and `Continuation.readCommand` is the comparison
of commands that this makes.
-/

namespace ShellScript

/-- Whether a text begins with a character that no name goes on with. -/
def StopsNames (more : List UInt8) : Prop :=
  ∃ x bytes, more = String.utf8EncodeChar x ++ bytes ∧ isNameChar x = false

/-- A read changes nothing about a lexer but its input. -/
theorem Lexer.eq_of_lift {σ α : Type} [Input σ] {l l' : Lexer σ} {r : Except ReadError α × σ} {a : α}
    (h : l.lift r = (.ok a, l')) : l' = { l with input := l'.input } := by
  obtain ⟨_ | _, _⟩ := r <;> cases h
  rfl

namespace Correspondence

open Lexer

/-- A text and the same text with more behind it. -/
def lengthened (label : String) (text : List Char) (more : List UInt8) :
    Correspondence Cursor Cursor :=
  extended label (Utf8.complete_encodeChars text) more

variable {label : String} {text : List Char} {more : List UInt8} {escape : EscapeSet}
variable {commandOpen : Bool} {l l' l₁ m m₁ : Lexer Cursor}

/-- Elements that moved nowhere are the same. -/
theorem moved_same {es es' : List Element} (h : Relocation.same.Moved es es') : es' = es := by
  rw [h.1, show Relocation.same.element = id from funext Relocation.same_element, List.map_id]

/-- A read that is never cut short answers the same in the longer text. -/
theorem Agree.same {α : Type} {v : α → α → Prop} {x y : Read Cursor α} {a : α}
    (h : (lengthened label text more).Agree v (fun _ _ => False) x y) (hv : ∀ b, v a b → b = a)
    (hx : x = (.ok a, l')) :
    ∃ m', y = (.ok a, m') ∧ (lengthened label text more).Sim l' m' := by
  subst hx
  obtain ⟨b, m', hy, hb, sim⟩ := h.of_ok fun _ => id
  exact ⟨m', by rw [hy, hv b hb], sim⟩

namespace Sim

/-- A character of the shorter text is one of the longer text. -/
theorem nextRune_of_some {σ τ : Type} [Input σ] [Input τ] {K : Correspondence σ τ} {l l' : Lexer σ}
    {m : Lexer τ} (h : K.Sim l m) {c : Char} (hl : l.nextRune = (.ok (some c), l')) :
    ∃ m', m.nextRune = (.ok (some c), m') ∧ K.Sim l' m' := by
  have hr := h.nextRune
  rw [hl] at hr
  obtain ⟨b, m', hm, rfl, sim⟩ := hr.of_ok (by simp)
  exact ⟨m', hm, sim⟩

/-- Where the shorter text is over, the longer one goes on. -/
theorem nextRune_of_none (h : (lengthened label text more).Sim l m) {x : Char} {bytes : List UInt8}
    (hmore : more = String.utf8EncodeChar x ++ bytes) (hl : l.nextRune = (.ok none, l')) :
    m.input.rest = more ∧ ∃ m', m.nextRune = (.ok (some x), m') ∧
      (lengthened label text more).Sim l' m'.unreadRune := by
  have hnone := Cursor.nextRune_of_ok (lift_eq_ok hl)
  have hrest := nil_of_nextRune_none hl
  have hm : m.input.rest = more := by
    rw [h.input.rest, hrest, List.nil_append]
  obtain ⟨m', hn, -, hback⟩ := nextRune_takes (hm.trans hmore)
  refine ⟨hm, m', hn, ?_⟩
  have hinput : l'.input = { l.input with undo := none } := by
    rw [← hnone.2, Cursor.nextRune_of_isEmpty hrest]
  have hl' : l' = { l with input := l'.input } := eq_of_lift hl
  have hm' : m'.unreadRune = { m with input := m'.unreadRune.input } := by
    rw [eq_of_lift hn]
    rfl
  rw [hl', hm', hinput]
  refine h.withInput ⟨?_, ?_, ?_⟩
  · rw [← List.nil_append m'.unreadRune.input.rest, ← hback.rest, h.input.rest]
  · exact hback.position.trans h.input.position
  · exact h.input.suffix

/-- A name ends where the shorter text does. -/
theorem readName_more (hstop : StopsNames more) (h : (lengthened label text more).Sim l m)
    {first : Char} {name : String} (hl : l.readName first = (.ok name, l')) :
    ∃ m', m.readName first = (.ok name, m') ∧ (lengthened label text more).Sim l' m' := by
  -- before every step the longer text has led to the same point of the loop
  let P (name : String) (l₁ : Lexer Cursor) := ∃ m₁, (lengthened label text more).Sim l₁ m₁ ∧
    m.readName first = iterate Lexer.nameStep size_nameStep_lt name m₁
  have hstep {name name' : String} {l₁ l₂ : Lexer Cursor} (hP : P name l₁)
      (hmore : Lexer.nameStep name l₁ = (.ok (.more name'), l₂)) : P name' l₂ := by
    obtain ⟨m₁, sim, hm⟩ := hP
    obtain ⟨c, hn, hc, rfl⟩ := nameStep_more hmore
    obtain ⟨m₂, hn', sim'⟩ := sim.nextRune_of_some hn
    refine ⟨m₂, sim', ?_⟩
    rw [hm, iterate_eq]
    simp only [Lexer.nameStep, hn', hc, if_true]
  obtain ⟨name₁, l₁, ⟨m₁, sim, hm⟩, hlast⟩ := iterate_ok (P := P) hstep ⟨m, h, rfl⟩ hl
  rw [hm, iterate_eq]
  unfold Lexer.nameStep at hlast ⊢
  split at hlast
  · cases hlast
  · rename_i hn
    cases hlast
    -- the shorter text is over here, and the next character of the longer one ends the name
    obtain ⟨x, bytes, hx, hname⟩ := hstop
    obtain ⟨-, m₂, hn', sim'⟩ := sim.nextRune_of_none hx hn
    refine ⟨m₂.unreadRune, ?_, sim'⟩
    simp only [hn', hname, Bool.false_eq_true, if_false]
  · rename_i c l₂ hn
    obtain ⟨m₂, hn', sim'⟩ := sim.nextRune_of_some hn
    split at hlast
    · cases hlast
    · rename_i hc
      cases hlast
      refine ⟨m₂.unreadRune, ?_, sim.unreadRune hn hn' sim'⟩
      simp only [hn', hc]
      rfl

/-- So does an expansion whose first character was read. -/
theorem readExpansion_more (hstop : StopsNames more) {dollar : Position} {c : Char}
    {e : Expansion} (h : (lengthened label text more).Sim l m) (hn : l.nextRune = (.ok (some c), l₁))
    (hn' : m.nextRune = (.ok (some c), m₁)) (sim : (lengthened label text more).Sim l₁ m₁)
    (hl : l₁.readExpansion dollar c = (.ok e, l')) :
    ∃ m', m₁.readExpansion dollar c = (.ok e, m') ∧ (lengthened label text more).Sim l' m' := by
  unfold Lexer.readExpansion at hl ⊢
  split
  · rename_i hc
    rw [if_pos hc] at hl
    split at hl <;> cases hl
    rename_i hb
    obtain ⟨m₂, hm, sim'⟩ := (sim.readBraced dollar).same (fun _ hv => hv.symm) hb
    exact ⟨m₂, by rw [show m₁.readBraced dollar = _ from hm], sim'⟩
  rename_i hbrace
  rw [if_neg hbrace] at hl
  split
  · rename_i hc
    rw [if_pos hc] at hl
    split at hl <;> cases hl
    rename_i hb
    obtain ⟨m₂, hm, sim'⟩ := (sim.readSubstitution dollar).same (fun _ hv => hv) hb
    exact ⟨m₂, by rw [show m₁.readSubstitution dollar = _ from hm], sim'⟩
  rename_i hparenthesis
  rw [if_neg hparenthesis] at hl
  split
  · rename_i hc
    rw [if_pos hc] at hl
    split at hl <;> cases hl
    rename_i hname
    -- a name is the only form that could go on in the longer text
    obtain ⟨m₂, hm, sim'⟩ := sim.readName_more hstop hname
    exact ⟨m₂, by rw [hm], sim'⟩
  rename_i hstart
  rw [if_neg hstart] at hl
  split
  · rename_i hc
    rw [if_pos hc] at hl
    cases hl
    exact ⟨m₁, rfl, sim⟩
  · rename_i hspecial
    rw [if_neg hspecial] at hl
    cases hl
    exact ⟨m₁.unreadRune, rfl, h.unreadRune hn hn' sim⟩

/-- What a dollar sign introduces is the same in the longer text, if there is anything behind it. -/
theorem readDollar_more (hstop : StopsNames more) {dollar : Position} {e : Expansion}
    (h : (lengthened label text more).Sim l m) (hrest : l.input.rest ≠ [])
    (hl : l.readDollar dollar = (.ok e, l')) :
    ∃ m', m.readDollar dollar = (.ok e, m') ∧ (lengthened label text more).Sim l' m' := by
  unfold Lexer.readDollar at hl ⊢
  split at hl
  · cases hl
  · rename_i hn
    exact (hrest (nil_of_nextRune_none hn)).elim
  -- there is a character behind the dollar sign in the shorter text, and it is the same in both
  rename_i c l₁ hn
  obtain ⟨m₁, hn', sim⟩ := h.nextRune_of_some hn
  rw [hn']
  dsimp only
  split
  · rename_i hc
    rw [if_pos hc] at hl
    split at hl <;> cases hl
    rename_i hq
    obtain ⟨m₂, hm, sim'⟩ := (sim.readAnsiCQuoted dollar).same (fun _ hv => hv) hq
    exact ⟨m₂, by rw [show m₁.readAnsiCQuoted dollar = _ from hm], sim'⟩
  rename_i hsingle
  rw [if_neg hsingle] at hl
  split
  · rename_i hc
    rw [if_pos hc] at hl
    split at hl <;> cases hl
    rename_i hq
    obtain ⟨m₂, hm, sim'⟩ := (sim.readDoubleQuoted l.position).same (fun _ hv => moved_same hv) hq
    have hposition : m.position = l.position := h.position
    refine ⟨m₂, ?_, sim'⟩
    rw [hposition, show m₁.readDoubleQuoted l.position = _ from hm]
  · rename_i hdouble
    rw [if_neg hdouble] at hl
    exact h.readExpansion_more hstop hn hn' sim hl

end Sim

/-! ## Words -/

/-- What a token of the shorter text becomes in the longer one: it is the same, or it was open at the end
of the shorter text and comes to what `E` says of its elements, or it ends in a pipe. -/
inductive Resumed (label : String) (text : List Char) (more : List UInt8)
    (E : List Element → Read Cursor (Option Token) → Prop) :
    Option Token → Lexer Cursor → Read Cursor (Option Token) → Prop
  | same {t l m} (sim : (lengthened label text more).Sim l m) :
    Resumed label text more E t l (.ok t, m)
  | closed {es l y} (readable : AllReadable es) (rest : l.input.rest = []) (closes : E es y) :
    Resumed label text more E (Token.ofElements? es) l y
  | piped {t s l y} (last : t.separator? = some s) (goesOn : s.endsCommand = false) :
    Resumed label text more E (some t) l y

/-- The same for a step within a token. -/
def StepResumed (label : String) (text : List Char) (more : List UInt8)
    (E : List Element → Read Cursor (Option Token) → Prop) (escape : EscapeSet) (commandOpen : Bool)
    (g : Gathering) (m : Lexer Cursor) :
    Progress Gathering (Option Token) → Lexer Cursor → Prop
  | .more g', l' => ∃ m', Lexer.wordStep escape commandOpen g m = (.ok (.more g'), m') ∧
      (lengthened label text more).Sim l' m'
  | .done t, l' => Resumed label text more E t l'
      (iterate (Lexer.wordStep escape commandOpen) size_wordStep_lt g m)

variable {E : List Element → Read Cursor (Option Token) → Prop}

/-- A step that does the same in the longer text is accounted for. -/
theorem stepResumed_of_same {g : Gathering} {p : Progress Gathering (Option Token)} {m' : Lexer Cursor}
    (hm : Lexer.wordStep escape commandOpen g m = (.ok p, m'))
    (sim : (lengthened label text more).Sim l' m') :
    StepResumed label text more E escape commandOpen g m p l' := by
  cases p with
  | more g' => exact ⟨m', hm, sim⟩
  | done t =>
    unfold StepResumed
    rw [iterate_eq, hm]
    exact .same sim

variable {g : Gathering} {p : Progress Gathering (Option Token)}

/-- Behind a character there stands the same in the longer text, unless it is a pipe. -/
theorem Sim.readSequel_more (hstop : StopsNames more) {hasOperand : Bool} {c : Char} {here : Position}
    {sequel : Sequel} (h : (lengthened label text more).Sim l m)
    (hdollar : role escape c = .dollar → l.input.rest ≠ []) (hcomment : role escape c ≠ .comment)
    (hsequel : sequel ≠ .escaped none) (hl : l.readSequel escape hasOperand here c = (.ok sequel, l')) :
    (∃ m', m.readSequel escape hasOperand here c = (.ok sequel, m') ∧
      (lengthened label text more).Sim l' m') ∨
    ∃ s, sequel = .separator s ∧ s.endsCommand = false := by
  unfold Lexer.readSequel at hl ⊢
  cases hrole : role escape c with
  | safe | plain | blank =>
    simp only [hrole] at hl ⊢
    cases hl
    exact .inl ⟨m, rfl, h⟩
  | separator s =>
    simp only [hrole] at hl ⊢
    obtain ⟨s', l₁, hs, hok⟩ := andThen_ok hl
    cases hok
    cases hends : s'.endsCommand with
    | false => exact .inr ⟨s', rfl, hends⟩
    | true =>
      -- a separator that ends a command takes nothing from behind it
      obtain ⟨rfl, rfl⟩ := readSeparator_of_endsCommand hs hends
      have hpipe : s' ≠ .pipe := by
        rintro rfl
        cases hends
      simp only [Lexer.readSeparator, hpipe, if_false]
      exact .inl ⟨m, rfl, h⟩
  | backslash =>
    simp only [hrole] at hl ⊢
    obtain ⟨d, l₁, hd, hok⟩ := andThen_ok hl
    cases hok
    -- a backslash at the end of the shorter text was excluded, so the character is there in both
    have hr := h.nextPastReturn
    rw [hd] at hr
    obtain ⟨_, m₁, hm, rfl, sim⟩ := hr.of_ok fun _ hnone => hsequel (by rw [hnone])
    exact .inl ⟨m₁, by rw [hm]; rfl, sim⟩
  | singleQuote =>
    simp only [hrole] at hl ⊢
    obtain ⟨literal, l₁, hq, hok⟩ := andThen_ok hl
    cases hok
    obtain ⟨m₁, hm, sim⟩ := (h.readSingleQuoted here).same (fun _ hv => hv) hq
    exact .inl ⟨m₁, by rw [show m.readSingleQuoted here = _ from hm]; rfl, sim⟩
  | doubleQuote =>
    simp only [hrole] at hl ⊢
    obtain ⟨parts, l₁, hq, hok⟩ := andThen_ok hl
    cases hok
    obtain ⟨m₁, hm, sim⟩ := (h.readDoubleQuoted here).same (fun _ hv => moved_same hv) hq
    exact .inl ⟨m₁, by rw [show m.readDoubleQuoted here = _ from hm]; rfl, sim⟩
  | dollar =>
    simp only [hrole] at hl ⊢
    obtain ⟨e, l₁, hd, hok⟩ := andThen_ok hl
    cases hok
    obtain ⟨m₁, hm, sim⟩ := h.readDollar_more hstop (hdollar hrole) hd
    exact .inl ⟨m₁, by rw [hm]; rfl, sim⟩
  | comment => exact (hcomment hrole).elim
  | unsupported feature =>
    simp only [hrole] at hl
    cases hl
  | misplaced =>
    simp only [hrole] at hl
    cases hl

/-- A character comes to the same in both texts, when the same was read behind it. -/
theorem Sim.act_same {filename : String} {c : Char} {here : Position} {sequel : Sequel}
    (h : (lengthened label text more).Sim l m)
    (hl : l.act escape filename g here c sequel = (.ok p, l')) :
    ∃ m', m.act escape filename g here c sequel = (.ok p, m') ∧
      (lengthened label text more).Sim l' m' := by
  unfold Lexer.act at hl ⊢
  dsimp only at hl ⊢
  generalize g.settle filename = es at hl ⊢
  cases sequel with
  | nothing =>
    dsimp only at hl ⊢
    cases hrole : role escape c with
    | blank =>
      simp only [hrole] at hl ⊢
      split at hl <;> cases hl
      · rename_i hes
        rw [if_pos hes]
        exact ⟨_, rfl, h.toAligned.begin⟩
      · rename_i hes
        rw [if_neg hes]
        exact ⟨m, rfl, h⟩
    -- only a blank asks whether anything was gathered, and both gathered the same
    | _ =>
      simp only [hrole] at hl ⊢
      cases hl
      exact ⟨m, rfl, h⟩
  | separator s =>
    cases hl
    exact ⟨m, rfl, h⟩
  | escaped d =>
    cases d with
    | none => cases hl
    | some d =>
      dsimp only at hl ⊢
      split at hl <;> cases hl <;> rename_i hnewline
      · exact ⟨m, by rw [if_pos hnewline], h⟩
      · exact ⟨m, by rw [if_neg hnewline], h⟩
  | expansion e =>
    cases e <;> cases hl <;> exact ⟨m, rfl, h⟩
  | comment found =>
    dsimp only at hl ⊢
    split at hl <;> cases hl <;> rename_i hline
    · exact ⟨m, by rw [if_pos hline], h⟩
    · exact ⟨m, by rw [if_neg hline], h⟩

/-- A character that begins no comment does the same in both texts, unless it is a pipe, or a dollar sign at
the end of the shorter text. -/
theorem Sim.wordRune_more (hstop : StopsNames more) {c : Char} {here : Position}
    (h : (lengthened label text more).Sim l₁ m₁) (hdollar : role escape c = .dollar → l₁.input.rest ≠ [])
    (hcomment : role escape c ≠ .comment)
    (hl : l₁.wordRune escape commandOpen g here c = (.ok p, l')) :
    (∃ m', m₁.wordRune escape commandOpen g here c = (.ok p, m') ∧
      (lengthened label text more).Sim l' m') ∨
    ∃ t s, p = .done (some t) ∧ t.separator? = some s ∧ s.endsCommand = false := by
  rw [wordRune_eq] at hl
  obtain ⟨sequel, l₂, hread, hact⟩ := andThen_ok hl
  have hsequel : sequel ≠ .escaped none := by
    rintro rfl
    cases hact
  rcases h.readSequel_more hstop hdollar hcomment hsequel hread with ⟨m₂, hm₂, sim⟩ | ⟨s, rfl, hends⟩
  · obtain ⟨m', hm', sim'⟩ := sim.act_same hact
    refine .inl ⟨m', ?_, sim'⟩
    rw [wordRune_eq, h.filename, hm₂]
    exact hm'
  · cases hact
    exact .inr ⟨_, s, rfl, Token.separator?_of_separator _ _, hends⟩

/-- A step within a token that takes a character, unless the character is a dollar sign at the end of the
shorter text, or begins a comment. -/
theorem Sim.wordStep_more (hstop : StopsNames more) {c : Char}
    (h : (lengthened label text more).Sim l m) (hn : l.nextRune = (.ok (some c), l₁))
    (hdollar : role escape c = .dollar → l₁.input.rest ≠ []) (hcomment : role escape c ≠ .comment)
    (hl : Lexer.wordStep escape commandOpen g l = (.ok p, l')) :
    StepResumed label text more E escape commandOpen g m p l' := by
  obtain ⟨m₁, hn', sim⟩ := h.nextRune_of_some hn
  have hposition : m.position = l.position := h.position
  simp only [Lexer.wordStep, hn] at hl
  have hstep {m' : Lexer Cursor} (hm : m₁.wordRune escape commandOpen g l.position c = (.ok p, m')) :
      Lexer.wordStep escape commandOpen g m = (.ok p, m') := by
    simp only [Lexer.wordStep, hn', hposition, hm]
  rcases sim.wordRune_more hstop hdollar hcomment hl with ⟨m', hm, sim'⟩ | ⟨t, s, rfl, hlast, hends⟩
  · exact stepResumed_of_same (hstep hm) sim'
  · exact .piped hlast hends

/-- A token, given its steps. -/
theorem Sim.readToken_resumed
    (hsteps : ∀ {g p l l' m}, (lengthened label text more).Sim l m → Stands label text l →
      AllReadable g.elements → Lexer.wordStep escape commandOpen g l = (.ok p, l') →
      StepResumed label text more E escape commandOpen g m p l')
    (h : (lengthened label text more).Sim l m) (hstands : Stands label text l) {t : Option Token}
    (hl : l.readToken escape commandOpen = (.ok t, l')) :
    Resumed label text more E t l' (m.readToken escape commandOpen) := by
  -- before every step the longer text has led to the same point of the loop
  let P (g : Gathering) (l₁ : Lexer Cursor) :=
    (∃ m₁, (lengthened label text more).Sim l₁ m₁ ∧ m.readToken escape commandOpen =
      iterate (Lexer.wordStep escape commandOpen) size_wordStep_lt g m₁) ∧
    AllReadable g.elements ∧ Stands label text l₁ ∧
    Gathers label text l₁.tokenStart.offset l₁.position.offset g
  have hstep {g g' : Gathering} {l₁ l₂ : Lexer Cursor} (hP : P g l₁)
      (hmore : Lexer.wordStep escape commandOpen g l₁ = (.ok (.more g'), l₂)) : P g' l₂ := by
    obtain ⟨⟨m₁, sim, hm⟩, hg, hl₁, hgathers⟩ := hP
    obtain ⟨m₂, hm₂, sim'⟩ := hsteps sim hl₁ hg hmore
    have hlands := hl₁.wordStep escape commandOpen hgathers
    rw [hmore] at hlands
    cases hlands with
    | ok value =>
      refine ⟨⟨m₂, sim', ?_⟩, readable_of_wordStep hg hmore, value.1.toStands, value.2⟩
      rw [hm, iterate_eq, hm₂]
  have hbegin : P {} { l with tokenStart := l.position } :=
    ⟨⟨_, h.begin, rfl⟩, .nil, ⟨hstands.filename, hstands.point, hstands.within⟩,
      .empty (Nat.le_refl _)⟩
  obtain ⟨g, l₁, ⟨⟨m₁, sim, hm⟩, hg, hl₁, -⟩, hlast⟩ := iterate_ok (P := P) hstep hbegin hl
  rw [hm]
  exact hsteps sim hl₁ hg hlast

/-! ## Commands -/

variable {a : Assembly}

/-- A step of a command after the same token. -/
theorem Sim.commandStep_same {t : Option Token} {p : Progress Assembly (Option Command)}
    (hl : l.readToken escape (!a.words.isEmpty) = (.ok t, l₁))
    (hm : m.readToken escape (!a.words.isEmpty) = (.ok t, m₁))
    (sim : (lengthened label text more).Sim l₁ m₁) (stands : Stands label text l₁)
    (h : Lexer.commandStep escape a l = (.ok p, l')) :
    ∃ m', Lexer.commandStep escape a m = (.ok p, m') ∧ (lengthened label text more).Sim l' m' ∧
      Stands label text l' := by
  have hstart : m₁.startLocation = l₁.startLocation := sim.startLocation
  -- nothing moves, so the same event is noted
  have hnote (e : Event) : (lengthened label text more).Sim (l₁.note e) (m₁.note e) := by
    have := sim.note e
    rwa [show (lengthened label text more).relocation.event e = e from Relocation.same_event e] at this
  unfold Lexer.commandStep Lexer.finishCommand at h ⊢
  rw [hl] at h
  rw [hm]
  cases t with
  | none =>
    dsimp only at h ⊢
    rw [hstart]
    split at h <;> cases h
    · rename_i ha
      rw [if_pos ha]
      exact ⟨m₁, rfl, sim, stands⟩
    · rename_i ha
      rw [if_neg ha]
      exact ⟨_, rfl, hnote _, stands.note _⟩
  | some t =>
    dsimp only at h ⊢
    rw [hstart]
    split at h
    · cases h
      exact ⟨m₁, rfl, sim, stands⟩
    · rename_i s hs
      split at h
      · cases h
      · rename_i hends
        rw [if_neg hends]
        split at h <;> cases h
        · rename_i ha
          rw [if_pos ha]
          exact ⟨_, rfl, hnote _, stands.note _⟩
        · rename_i ha
          rw [if_neg ha]
          exact ⟨_, rfl, hnote _, stands.note _⟩

/-- A step of a command that succeeds has read a token. -/
theorem readToken_of_commandStep {p : Progress Assembly (Option Command)}
    (h : Lexer.commandStep escape a l = (.ok p, l')) :
    ∃ t l₁, l.readToken escape (!a.words.isEmpty) = (.ok t, l₁) := by
  unfold Lexer.commandStep at h
  split at h
  · cases h
  · exact ⟨none, _, by assumption⟩
  · exact ⟨some _, _, by assumption⟩

/-- A pipe fails a command. -/
theorem commandStep_of_pipe {t : Token} {s : Separator}
    (h : l.readToken escape (!a.words.isEmpty) = (.ok (some t), l₁)) (hs : t.separator? = some s)
    (hends : s.endsCommand = false) :
    Lexer.commandStep escape a l = (.error (.unsupported "pipelines" l₁.location), l₁) := by
  unfold Lexer.commandStep
  simp [h, Token.splitSeparator, hs, hends]

/-- A command to which no word was ever added is as it began. -/
theorem eq_empty_of_add (h : a.words = [] → a = {}) (word : Token) (start : Location) :
    (a.add word start).words = [] → a.add word start = {} := by
  unfold Assembly.add
  split
  · exact h
  · simp

/-- After a token the lexer is between two characters of the shorter text. -/
theorem stands_of_readToken {commandOpen : Bool} {t : Option Token} (h : Stands label text l)
    (hl : l.readToken escape commandOpen = (.ok t, l')) : Stands label text l' := by
  have hlands := h.readToken escape commandOpen
  rw [hl] at hlands
  cases hlands with
  | ok value => exact value.1

/-- What follows a text: what becomes of words that are open where the text ends (`E`, for a command with
or without words before), of commands with words (`F`), and where there are none (`G`). -/
structure Continuation (label : String) (text : List Char) (more : List UInt8) (escape : EscapeSet)
    (E : Bool → List Element → Read Cursor (Option Token) → Prop)
    (F : List Token → Read Cursor (Option Command) → Prop)
    (G : Read Cursor (Option Command) → Prop) : Prop where
  ne_nil : more ≠ []
  token : ∀ {commandOpen} {l l' m : Lexer Cursor} {t}, (lengthened label text more).Sim l m →
    Stands label text l → l.readToken escape commandOpen = (.ok t, l') →
    Resumed label text more (E commandOpen) t l' (m.readToken escape commandOpen)
  command : ∀ {a : Assembly} {es} {m : Lexer Cursor}, AllReadable es →
    a.words ++ (Token.ofElements? es).toList ≠ [] →
    E (!a.words.isEmpty) es (m.readToken escape (!a.words.isEmpty)) →
    F (a.words ++ (Token.ofElements? es).toList)
      (iterate (Lexer.commandStep escape) size_commandStep_lt a m)
  nothing : ∀ {m : Lexer Cursor}, E false [] (m.readToken escape false) → G (m.readCommand escape)

/-- What a command of the shorter text becomes in the longer one: it is the same if a separator ended it,
and what follows the text decides otherwise. -/
inductive Completed (label : String) (text : List Char) (more : List UInt8)
    (F : List Token → Read Cursor (Option Command) → Prop) (G : Read Cursor (Option Command) → Prop) :
    Option Command → Lexer Cursor → Read Cursor (Option Command) → Prop
  | same {c l m} (sim : (lengthened label text more).Sim l m) (stands : Stands label text l)
    (terminated : c.terminator ≠ none) : Completed label text more F G (some c) l (.ok (some c), m)
  | finished {c l y} (last : c.terminator = none) (rest : l.input.rest = []) (ends : F c.tokens y) :
    Completed label text more F G (some c) l y
  | passed {l y} (ends : G y) : Completed label text more F G none l y

/-- Where the command of the longer text is before a step of the shorter one: at the same point, or, if the
shorter text is over, decided. -/
inductive Abreast (label : String) (text : List Char) (more : List UInt8) (escape : EscapeSet)
    (F : List Token → Read Cursor (Option Command) → Prop) (y : Read Cursor (Option Command)) :
    Assembly → Lexer Cursor → Prop
  | same {b l m} (sim : (lengthened label text more).Sim l m) (stands : Stands label text l)
    (empty : b.words = [] → b = {})
    (behind : y = iterate (Lexer.commandStep escape) size_commandStep_lt b m) :
    Abreast label text more escape F y b l
  | past {b l} (rest : l.input.rest = []) (words : b.words ≠ []) (ends : F b.words y) :
    Abreast label text more escape F y b l

section

variable {F : List Token → Read Cursor (Option Command) → Prop} {G : Read Cursor (Option Command) → Prop}
variable {E : Bool → List Element → Read Cursor (Option Token) → Prop} {y : Read Cursor (Option Command)}

/-- One more token of a command. -/
theorem Abreast.step {a' : Assembly} (hmore : Continuation label text more escape E F G)
    (h : Abreast label text more escape F y a l)
    (hl : Lexer.commandStep escape a l = (.ok (.more a'), l')) :
    Abreast label text more escape F y a' l' := by
  obtain ⟨t, l₁, ht, ha'⟩ := commandStep_more hl
  cases h with
  | past rest =>
    obtain ⟨l₂, hnone, -⟩ := readToken_end escape (!a.words.isEmpty) rest
    rw [ht] at hnone
    cases hnone
  | @same m sim stands empty behind =>
    have hresumed := hmore.token sim stands ht
    generalize hz : m.readToken escape (!a.words.isEmpty) = z at hresumed
    generalize ht' : some t = t' at hresumed
    cases hresumed with
    | same sim' =>
      subst ht'
      obtain ⟨m₁, hm₁, sim₁, hl'⟩ := Sim.commandStep_same ht hz sim' (stands_of_readToken stands ht) hl
      exact .same sim₁ hl' (ha' ▸ eq_empty_of_add empty _ _) (by rw [behind, iterate_eq, hm₁])
    | @closed es _ _ readable rest closes =>
      -- the word was open where the shorter text is over; what follows decides on the whole command
      have hes : es ≠ [] := by
        rintro rfl
        cases ht'
      rw [Token.ofElements?_eq_some ht'.symm] at ht
      obtain ⟨a'', hword, hwords⟩ := commandStep_word hes readable ht
      rw [hl] at hword
      cases hword
      have hfinished := hmore.command (a := a) (m := m) readable
        (by simp [Token.ofElements?_of_ne_nil hes]) (hz ▸ closes)
      rw [Token.ofElements?_of_ne_nil hes, ← behind] at hfinished
      exact .past rest (by simp [hwords]) (hwords ▸ hfinished)
    | piped last goesOn =>
      cases ht'
      have hfail := commandStep_of_pipe ht last goesOn
      rw [hl] at hfail
      cases hfail

/-- The last token of a command. -/
theorem Abreast.finish {c : Option Command} (hmore : Continuation label text more escape E F G)
    (h : Abreast label text more escape F y a l)
    (hl : Lexer.commandStep escape a l = (.ok (.done c), l')) :
    Completed label text more F G c l' y := by
  cases h with
  | past rest words ends =>
    obtain ⟨d, l₂, hstep, htokens, hterminator, hrest⟩ := commandStep_end escape words rest
    rw [hl] at hstep
    cases hstep
    exact .finished hterminator hrest (htokens ▸ ends)
  | @same m sim stands empty behind =>
    obtain ⟨t, l₁, ht⟩ := readToken_of_commandStep hl
    have hresumed := hmore.token sim stands ht
    generalize hz : m.readToken escape (!a.words.isEmpty) = z at hresumed
    cases hresumed with
    | @same _ _ m₁ sim' =>
      obtain ⟨m₂, hm₂, sim₂, hl'⟩ := Sim.commandStep_same ht hz sim' (stands_of_readToken stands ht) hl
      rw [behind, iterate_eq, hm₂]
      -- behind the same tokens the longer text has more left, so it has not run out
      have hnone : t ≠ none := by
        rintro rfl
        have hrest := rest_of_readToken hz
        rw [sim'.input.rest] at hrest
        exact hmore.ne_nil (List.append_eq_nil_iff.mp hrest).2
      cases commandStep_done hl with
      | nothing ended =>
        rw [ht] at ended
        cases ended
        cases hnone rfl
      | input ended =>
        rw [ht] at ended
        cases ended
        cases hnone rfl
      | separator => exact .same sim₂ hl' (by simp)
    | @closed es _ _ readable rest closes =>
      by_cases hes : es = []
      · subst hes
        by_cases hwords : a.words = []
        · cases empty hwords
          have hpassed := hmore.nothing (m := m) (hz ▸ closes)
          have hnone : Lexer.commandStep escape {} l = (.ok (.done none), l₁) := by
            unfold Lexer.commandStep
            rw [ht]
            rfl
          rw [hl] at hnone
          cases hnone
          rw [behind]
          exact .passed hpassed
        · obtain ⟨d, l₂, hstep, htokens, hterminator, hinput⟩ := commandStep_none hwords ht
          rw [hl] at hstep
          cases hstep
          have hfinished := hmore.command (a := a) (m := m) readable (by simp [hwords]) (hz ▸ closes)
          rw [behind]
          refine .finished hterminator (hinput ▸ rest) ?_
          simpa [htokens, Token.ofElements?] using hfinished
      · -- a word does not end a command
        rw [Token.ofElements?_of_ne_nil hes] at ht
        obtain ⟨a', hword, -⟩ := commandStep_word hes readable ht
        rw [hl] at hword
        cases hword
    | piped last goesOn =>
      have hfail := commandStep_of_pipe ht last goesOn
      rw [hl] at hfail
      cases hfail

/-- A command. -/
theorem Continuation.readCommand (hmore : Continuation label text more escape E F G)
    (h : (lengthened label text more).Sim l m) (hstands : Stands label text l) {c : Option Command}
    (hl : l.readCommand escape = (.ok c, l')) :
    Completed label text more F G c l' (m.readCommand escape) := by
  obtain ⟨a, l₁, habreast, hlast⟩ :=
    iterate_ok (P := Abreast label text more escape F (m.readCommand escape))
      (fun habreast hstep => habreast.step hmore hstep) (.same h hstands (fun _ => rfl) rfl) hl
  exact habreast.finish hmore hlast

end

end Correspondence

end ShellScript
