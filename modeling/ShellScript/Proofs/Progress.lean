import ShellScript.Proofs.Calls
import ShellScript.Proofs.Scripts

/-!
# Progress

Of a stream that does not fail, every token takes some bytes, and so does every error. Only where the
bytes are used up is there no other token. So the loops of a lexer end after as many turns as there are
bytes (`iterateWithin_eq`), an iteration yields no more items than there are bytes, and it leaves none
unread unless it ends in an error (`reads_progress`).
-/

namespace ShellScript

namespace Lexer

/-! ## Loops -/

section

variable {σ : Type} [Input σ] {α β : Type} {step : α → Lexer σ → Read σ (Progress α β)}
  {takes : ∀ {a a' l l'}, step a l = (.ok (.more a'), l') → l'.size < l.size} {a : α} {l l' : Lexer σ}

/-- Repeats a step until it is done or fails, for at most `n` turns. -/
def iterateWithin (step : α → Lexer σ → Read σ (Progress α β)) :
    Nat → α → Lexer σ → Option (Read σ β)
  | 0, _, _ => none
  | n + 1, a, l =>
    match step a l with
    | (.error e, l₁) => some (.error e, l₁)
    | (.ok (.done b), l₁) => some (.ok b, l₁)
    | (.ok (.more a'), l₁) => iterateWithin step n a' l₁

/-- A loop takes at most one turn more than there are bytes. -/
theorem iterateWithin_eq {n : Nat} (h : l.size < n) :
    iterateWithin step n a l = some (iterate step takes a l) := by
  induction n generalizing a l with
  | zero => exact absurd h (Nat.not_lt_zero _)
  | succ n ih =>
    have hlt := @takes a
    rw [iterateWithin, iterate_eq]
    rcases hs : step a l with ⟨_ | a' | _, l₁⟩
    · rfl
    · exact ih (Nat.lt_of_lt_of_le (hlt hs) (Nat.le_of_lt_succ h))
    · rfl

/-- If the steps that fail have taken something, so has a loop that fails. -/
theorem size_iterate_lt_of_error
    (lt : ∀ a l e l', step a l = (.error e, l') → l'.size < l.size) {e : ParseError}
    (h : iterate step takes a l = (.error e, l')) : l'.size < l.size := by
  fun_induction iterate step takes a l with
  | case1 a l e' l₁ hs => cases h; exact lt _ _ _ _ hs
  | case2 a l b l₁ hs => cases h
  | case3 a l a' l₁ hs ih => exact Nat.lt_trans (ih h) (takes hs)

end

/-! ## Errors -/

variable {escape : EscapeSet} {commandOpen : Bool} {e : ParseError} {l l' : Lexer Cursor}

/-- A step of a token that fails has taken a character. -/
theorem size_wordStep_lt_of_error (escape : EscapeSet) (commandOpen : Bool) (g : Gathering)
    (l : Lexer Cursor) (e : ParseError) (l' : Lexer Cursor)
    (h : wordStep escape commandOpen g l = (.error e, l')) : l'.size < l.size := by
  unfold wordStep at h
  split at h
  · -- characters in memory can be read
    rename_i hn
    cases hn
  · cases h
  · rename_i c l₁ hn
    exact Nat.lt_of_le_of_lt (size_le_of_eq h (size_wordRune_le _ _ _ _ _ _)) (size_nextRune_lt hn)

/-- An error stands behind a character at least. -/
theorem size_readToken_lt_of_error (h : l.readToken escape commandOpen = (.error e, l')) :
    l'.size < l.size := by
  have hlt := size_iterate_lt_of_error (size_wordStep_lt_of_error escape commandOpen) h
  exact hlt

/-- A step of a command that fails has taken a character. -/
theorem size_commandStep_lt_of_error (escape : EscapeSet) (a : Assembly) (l : Lexer Cursor)
    (e : ParseError) (l' : Lexer Cursor) (h : commandStep escape a l = (.error e, l')) :
    l'.size < l.size := by
  unfold commandStep at h
  split at h
  · rename_i ht
    cases h
    exact size_readToken_lt_of_error ht
  · split at h <;> cases h
  · rename_i t l₁ ht
    dsimp only at h
    split at h
    · cases h
    · split at h
      · cases h
        exact size_readToken_lt ht
      · split at h <;> cases h

/-- A command that fails has taken at least one byte. -/
theorem size_readCommand_lt_of_error (h : l.readCommand escape = (.error e, l')) : l'.size < l.size :=
  size_iterate_lt_of_error (size_commandStep_lt_of_error escape) h

end Lexer

/-! ## Iterations in memory -/

namespace Parser

variable {p p' : Parser Cursor}

/-- Every item takes at least one byte. -/
theorem size_next_lt_of_some {item : Except ParseError Command} (h : p.next = (some item, p')) :
    p'.size < p.size := by
  cases item with
  | ok c => exact size_next_lt h
  | error e =>
    unfold next readCommand readCommandWith at h
    split at h
    · cases h
    · rcases hr : p.lexer.readCommand p.escape with ⟨_ | _ | _, l⟩ <;> rw [hr] at h <;> cases h
      exact Lexer.size_readCommand_lt_of_error hr

/-- An iteration yields no more items than there are bytes. -/
theorem length_items_le (p : Parser Cursor) : p.items.1.length ≤ p.size := by
  induction hn : p.size using Nat.strongRecOn generalizing p with
  | ind n ih =>
    subst hn
    have hlt := @size_next_lt_of_some p
    rw [items_eq]
    rcases hnext : p.next with ⟨_ | _ | c, p₁⟩
    · exact Nat.zero_le _
    · exact Nat.succ_le_of_lt (Nat.zero_lt_of_lt (hlt hnext))
    · exact Nat.succ_le_of_lt (Nat.lt_of_le_of_lt (ih _ (hlt hnext) p₁ rfl) (hlt hnext))

/-- An iteration ends in an error, or at the end of the text. -/
theorem items_end (hp : p.failed = false) :
    p.items.2.failed = true ∧ (∃ e, .error e ∈ p.items.1) ∨ p.items.2.lexer.input.rest = [] := by
  induction hn : p.size using Nat.strongRecOn generalizing p with
  | ind n ih =>
    subst hn
    have hlt := @size_next_lt_of_some p
    rw [items_eq]
    simp only [next, hp, readCommand, readCommandWith, Bool.false_eq_true, if_false] at hlt ⊢
    rcases hr : p.lexer.readCommand p.escape with ⟨e | _ | c, l⟩
    · exact .inl ⟨rfl, e, .head _⟩
    · exact .inr (Lexer.rest_of_readCommand hr)
    · rw [hr] at hlt
      rcases ih _ (hlt rfl) rfl rfl with ⟨hfailed, e, he⟩ | hrest
      · exact .inl ⟨hfailed, e, .tail _ he⟩
      · exact .inr hrest

/-- Nothing more comes behind the last item. -/
theorem next_items (hp : p.failed = false) : p.items.2.next.1 = none := by
  rcases items_end hp with ⟨hfailed, -⟩ | hrest
  · simp [next, hfailed]
  · have hnil := items_of_rest hrest
    rw [items_eq] at hnil
    rcases hnext : p.items.2.next with ⟨_ | _ | _, _⟩
    · rfl
    · rw [hnext] at hnil
      cases hnil
    · rw [hnext] at hnil
      cases hnil

end Parser

/-! ## Streams -/

namespace Lexer

/-- A lexer on a stream that does not fail, which has taken as many of the bytes as its position says. -/
structure OnStream (bytes : List UInt8) (l : Lexer Scanner) : Prop where
  steady : l.input.reader.Steady
  within : l.input.cursor.Within bytes

namespace OnStream

variable {bytes : List UInt8} {l : Lexer Scanner} {c : Cursor}

/-- A lexer is on a stream if its input follows a cursor within the bytes. -/
theorem of_follows (h : l.input.Follows c) (hc : c.Within bytes) : OnStream bytes l := by
  obtain ⟨before, hbytes, hoffset⟩ := hc
  refine ⟨h.steady, before, ?_, ?_⟩
  · rw [hbytes, ← h.unread]
    rfl
  · rw [← hoffset, ← h.position]
    rfl

/-- A lexer begins on its stream, whatever pieces that comes in. -/
theorem start {chunk : Option Nat} (h : chunk ≠ some 0) (filename : String) :
    OnStream bytes (ofInput (.ofReader { unread := bytes, chunk }) filename) :=
  ⟨⟨rfl, h⟩, .start bytes⟩

/-- The bytes that were taken and the ones that are left are all. -/
theorem offset_add_size (h : OnStream bytes l) : l.position.offset + l.size = bytes.length := by
  obtain ⟨before, hbytes, hoffset⟩ := h.within
  have hposition : l.position.offset = before.length := hoffset
  have hsize : l.size = l.input.cursor.rest.length := rfl
  rw [hposition, hsize, ← List.length_append, ← hbytes]

/-- A lexer is still on its stream after a token was read, or failed to be. -/
theorem readToken (escape : EscapeSet) (commandOpen : Bool) (h : OnStream bytes l) :
    OnStream bytes (l.readToken escape commandOpen).2 := by
  have hover := Correspondence.sim_within (l := l.overCursor) h.within
  obtain ⟨sim, -⟩ := (hover.readToken escape commandOpen).endless fun _ => id
  exact of_follows (readToken_of_steady escape commandOpen h.steady).2 sim.input.2

/-- A token, or an error, takes some bytes. -/
theorem offset_lt {escape : EscapeSet} {commandOpen : Bool} (h : OnStream bytes l)
    (hsome : (l.readToken escape commandOpen).1 ≠ .ok none) :
    l.position.offset < (l.readToken escape commandOpen).2.position.offset := by
  obtain ⟨hanswer, hfollows⟩ := readToken_of_steady escape commandOpen h.steady
  have hlt : (l.overCursor.readToken escape commandOpen).2.size < l.overCursor.size := by
    rw [hanswer] at hsome
    rcases hr : l.overCursor.readToken escape commandOpen with ⟨_ | _ | _, _⟩
    · exact size_readToken_lt_of_error hr
    · rw [hr] at hsome
      exact absurd rfl hsome
    · exact size_readToken_lt hr
  have hsize : (l.readToken escape commandOpen).2.size =
      (l.overCursor.readToken escape commandOpen).2.size := congrArg List.length hfollows.unread
  have hover : l.overCursor.size = l.size := rfl
  have hbefore := h.offset_add_size
  have hafter := (h.readToken escape commandOpen).offset_add_size
  omega

/-- There is no other token only where all bytes were taken. -/
theorem unread_of_none {escape : EscapeSet} {commandOpen : Bool} (h : OnStream bytes l)
    (hnone : (l.readToken escape commandOpen).1 = .ok none) :
    (l.readToken escape commandOpen).2.input.unread = [] := by
  obtain ⟨hanswer, hfollows⟩ := readToken_of_steady escape commandOpen h.steady
  rw [hfollows.unread]
  exact rest_of_readToken (Prod.ext (hanswer ▸ hnone) rfl)

end OnStream

end Lexer

/-- An iteration over a stream that does not fail yields at most as many items as there are bytes, nothing
more comes behind them, and all bytes were taken unless one of the items is an error. -/
theorem Parser.items_of_stream (bytes : List UInt8) {chunk : Option Nat} (h : chunk ≠ some 0)
    (filename : String) (escape : EscapeSet) :
    let (items, p) := (ofInput (Scanner.ofReader { unread := bytes, chunk }) filename escape).items
    items.length ≤ bytes.length ∧ p.next.1 = none ∧
      ((∀ e, .error e ∉ items) → p.lexer.position.offset = bytes.length) := by
  let p := ofInput (Scanner.ofReader { unread := bytes, chunk }) filename escape
  let q := ofCursor bytes filename escape
  -- the items are counted on the cursor, and their positions followed within its bytes
  have hparsers : (Correspondence.ofReader filename).Parsers p q :=
    ⟨(Lexer.sim_overCursor (l := p.lexer) ⟨rfl, h⟩).toAligned, rfl, rfl⟩
  have hwithin : (Correspondence.within filename bytes).Parsers q q :=
    ⟨Correspondence.aligned_within (l := q.lexer) (.start bytes), rfl, rfl⟩
  have hexact := Correspondence.exact_ofReader filename
  obtain ⟨hitems, hlast⟩ := hexact.items hparsers
  refine ⟨hitems ▸ q.length_items_le, ?_, fun herror => ?_⟩
  · rw [← (hexact.next hlast).1]
    exact next_items rfl
  · have hrest : q.items.2.lexer.input.rest = [] :=
      (items_end (p := q) rfl).resolve_left fun ⟨_, e, he⟩ => herror e (hitems ▸ he)
    obtain ⟨before, hbytes, hoffset⟩ := (hwithin.items fun _ => id).1.lexer.input.2
    rw [hrest, List.append_nil] at hbytes
    have hposition : p.items.2.lexer.position = q.items.2.lexer.input.position :=
      hlast.lexer.input.position
    rw [hposition, hoffset, hbytes]

/-- Reading a stream that does not fail makes progress, whatever tokens were read from it before. The loop
of a token ends within one turn more than there are bytes, a token or an error takes at least one byte, and
there is none only where all bytes were taken. An iteration yields no more items than there are bytes and
then nothing, and it takes all bytes unless an item is an error. -/
theorem reads_progress (bytes : List UInt8) {chunk : Option Nat} (h : chunk ≠ some 0) (filename : String)
    (calls : List Lexer.Call) (escape : EscapeSet) (commandOpen : Bool) :
    let stream := Scanner.ofReader { unread := bytes, chunk }
    let l := ((Lexer.ofInput stream filename).serve calls).2
    let (answer, l') := l.readToken escape commandOpen
    let (items, p) := (Parser.ofInput stream filename escape).items
    Lexer.iterateWithin (Lexer.wordStep escape commandOpen) (bytes.length - l.position.offset + 1) {}
        { l with tokenStart := l.position } = some (answer, l') ∧
      (answer ≠ .ok none → l.position.offset < l'.position.offset) ∧
      (answer = .ok none → l'.position.offset = bytes.length ∧ l'.input.unread = []) ∧
      items.length ≤ bytes.length ∧ p.next.1 = none ∧
      ((∀ e, .error e ∉ items) → p.lexer.position.offset = bytes.length) := by
  intro stream l
  have hl : l.OnStream bytes :=
    Lexer.serve_induction (.start h filename) (fun _ escape commandOpen h => h.readToken escape commandOpen)
      calls
  have hbytes := hl.offset_add_size
  refine ⟨Lexer.iterateWithin_eq ?_, hl.offset_lt, fun hnone => ?_, Parser.items_of_stream bytes h filename escape⟩
  · have hsize : ({ l with tokenStart := l.position } : Lexer Scanner).size = l.size := rfl
    omega
  · have hunread := hl.unread_of_none hnone
    have hlast := (hl.readToken escape commandOpen).offset_add_size
    have hsize : (l.readToken escape commandOpen).2.size = 0 := congrArg List.length hunread
    rw [hsize, Nat.add_zero] at hlast
    exact ⟨hlast, hunread⟩

/-- From a stream that shows one byte at a time, the word `a` and its newline are read, and behind them
a line continuation and a comment to the end. The iteration yields one command of the seven bytes. -/
theorem reads_progress_comment :
    let stream := Scanner.ofReader { unread := Utf8.encode "a\n \\\n#b", chunk := some 1 }
    let l := ((Lexer.ofInput stream "s").serve [⟨.default, false⟩]).2
    let (answer, l') := l.readToken .default false
    let (items, p) := (Parser.ofInput stream "s").items
    some 1 ≠ some 0 ∧ l.position.offset = 2 ∧ answer = .ok none ∧
      (l'.position.offset = 7 ∧ l'.input.unread = []) ∧ items.length ≤ 7 ∧ p.next.1 = none := by
  have hchunk : some 1 ≠ some 0 := by decide
  intro stream l
  have hnone : (l.readToken .default false).1 = .ok none := by decide +kernel
  obtain ⟨-, -, hend, hlength, hlast, -⟩ :=
    reads_progress (Utf8.encode "a\n \\\n#b") hchunk "s" [⟨.default, false⟩] .default false
  exact ⟨hchunk, by decide +kernel, hnone, hend hnone, hlength, hlast⟩

end ShellScript
