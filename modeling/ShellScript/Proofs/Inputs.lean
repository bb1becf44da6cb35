import ShellScript.Input.Scanner
import ShellScript.Proofs.Commands
import ShellScript.Proofs.Positions

/-!
# Inputs that correspond

Where a correspondence moves nothing (`Correspondence.Exact`), reads that agree answer the same. These are
the correspondences that later modules use:

* `Correspondence.refl`: an input corresponds to itself, whatever the journals hold.
* `Correspondence.within`: a cursor stays within its text, at the offset that its position says.
* `Correspondence.ofReader`: a scanner on a stream without failures corresponds to a cursor.
* `Correspondence.shifted`: bytes read behind other bytes correspond to the same bytes read from the start.
* `Correspondence.extended`: bytes correspond to the same bytes with more behind them, up to their end.
-/

namespace ShellScript

/-! ## Inputs on which nothing differs -/

namespace Correspondence

variable {σ τ : Type} [Input σ] [Input τ] {K : Correspondence σ τ}

/-- A correspondence in which nothing moves and no input ends before the other one. -/
structure Exact (K : Correspondence σ τ) : Prop where
  relocation : K.relocation = .same
  endless : ∀ s, ¬K.stop s

namespace Exact

variable {l : Lexer σ} {m : Lexer τ} {p : Parser σ} {q : Parser τ}

/-- Reads that agree answer the same. -/
theorem agree (hK : K.Exact) {α : Type} {v : α → α → Prop} {o : α → Except ParseError α → Prop}
    {x : Lexer.Read σ α} {y : Lexer.Read τ α} (h : K.Agree v o x y) (hv : ∀ a b, v a b → b = a) :
    y.1 = x.1 ∧ K.Sim x.2 y.2 := by
  obtain ⟨sim, hvalue⟩ := h.endless hK.endless
  refine ⟨?_, sim⟩
  obtain ⟨r, l⟩ := x
  obtain ⟨r', m⟩ := y
  match r, r', hvalue with
  | .ok a, .ok b, hvalue => exact congrArg Except.ok (hv a b hvalue)
  | .error e, .error e', hvalue =>
    have he : e' = K.relocation.error e := hvalue
    rw [he, hK.relocation, Relocation.same_error]

/-- The left read, given the right one. -/
theorem eq_of_agree (hK : K.Exact) {α : Type} {v : α → α → Prop} {o : α → Except ParseError α → Prop}
    {x : Lexer.Read σ α} {y : Lexer.Read τ α} {r : Except ParseError α} (h : K.Agree v o x y)
    (hv : ∀ a b, v a b → b = a) (hy : y = (r, m)) : ∃ l, x = (r, l) ∧ K.Sim l m := by
  obtain ⟨hanswer, sim⟩ := hK.agree h hv
  subst hy
  exact ⟨x.2, Prod.ext hanswer.symm rfl, sim⟩

/-- Where nothing differs, tokens are the same. -/
theorem readToken (hK : K.Exact) (h : K.Aligned l m) (escape : EscapeSet) (commandOpen : Bool) :
    (m.readToken escape commandOpen).1 = (l.readToken escape commandOpen).1 ∧
      K.Sim (l.readToken escape commandOpen).2 (m.readToken escape commandOpen).2 := by
  have htoken : K.relocation.token = id := hK.relocation ▸ funext Relocation.same_token
  have hagree := hK.agree (h.begin.readToken escape commandOpen) fun t t' ht => by
    rw [ht, htoken, Option.map_id, id]
  simpa only [readToken_tokenStart] using hagree

/-- So are commands. -/
theorem readCommand (hK : K.Exact) (h : K.Aligned l m) (escape : EscapeSet) :
    (m.readCommand escape).1 = (l.readCommand escape).1 ∧
      K.Sim (l.readCommand escape).2 (m.readCommand escape).2 := by
  have hcommand : K.relocation.command = id := hK.relocation ▸ funext Relocation.same_command
  exact hK.agree (h.readCommand escape) fun c c' hc => by rw [hc, hcommand, Option.map_id, id]

/-- So is what an iteration yields next. -/
theorem next (hK : K.Exact) (h : K.Parsers p q) :
    q.next.1 = p.next.1 ∧ K.Parsers p.next.2 q.next.2 := by
  have hitem : K.relocation.item = id := hK.relocation ▸ funext Relocation.same_item
  obtain ⟨hparsers, hnext⟩ := h.next hK.endless
  rw [hitem, Option.map_id] at hnext
  exact ⟨hnext, hparsers⟩

/-- So is all that it yields. -/
theorem items (hK : K.Exact) (h : K.Parsers p q) :
    q.items.1 = p.items.1 ∧ K.Parsers p.items.2 q.items.2 := by
  have hitem : K.relocation.item = id := hK.relocation ▸ funext Relocation.same_item
  obtain ⟨hparsers, hitems⟩ := h.items hK.endless
  rw [hitem, List.map_id] at hitems
  exact ⟨hitems, hparsers⟩

end Exact

end Correspondence

/-! ## The same input -/

/-- What was reported before does not change what is read. -/
def Correspondence.refl (σ : Type) [Input σ] (label : String) (earlier earlier' : List Event) :
    Correspondence σ σ where
  label
  relocation := .same
  rel := Eq
  earlier
  earlier'
  position h := by rw [h]; rfl
  nextRune h := .inl (by rw [h]; exact ⟨rfl, rfl⟩)
  nextByte h := .inl (by rw [h]; exact ⟨rfl, rfl⟩)
  peekByte h := .inl (by rw [h]; exact ⟨rfl, rfl⟩)
  unreadRune h hs ht := by
    subst h
    rw [hs] at ht
    cases ht
    rfl

/-- Nothing differs between an input and itself. -/
theorem Correspondence.exact_refl (σ : Type) [Input σ] (label : String) (earlier earlier' : List Event) :
    (refl σ label earlier earlier').Exact := ⟨rfl, fun _ => id⟩

/-! ## A text and the point that is reached in it -/

namespace Cursor

/-- A cursor within a text, at the offset that its position says. -/
def Within (whole : List UInt8) (c : Cursor) : Prop :=
  ∃ before, whole = before ++ c.rest ∧ c.position.offset = before.length

variable {whole : List UInt8} {c : Cursor}

/-- A cursor begins within its text. -/
theorem Within.start (whole : List UInt8) : (ofBytes whole).Within whole := ⟨[], rfl, rfl⟩

/-- The offset tells how much is left. -/
theorem Within.rest_eq_nil (h : c.Within whole) (hoffset : c.position.offset = whole.length) :
    c.rest = [] := by
  obtain ⟨before, rfl, hb⟩ := h
  rw [hb, List.length_append] at hoffset
  exact List.eq_nil_of_length_eq_zero (by omega)

/-- Reading a character stays within it, and so does putting that back. -/
theorem Within.nextRune (h : c.Within whole) :
    c.nextRune.2.Within whole ∧ (c.nextRune.1.isSome → c.nextRune.2.unreadRune.2.Within whole) := by
  unfold Cursor.nextRune
  cases hc : c.rest with
  | nil =>
    obtain ⟨before, hw, hb⟩ := h
    exact ⟨⟨before, by rw [hw, hc], hb⟩, by simp⟩
  | cons lead rest =>
    obtain ⟨before, hw, hb⟩ := h
    rw [hc] at hw
    have hl := Utf8.length_nextRune_le lead rest
    refine ⟨⟨before ++ (lead :: rest).take (Utf8.nextRune lead rest).2, ?_, ?_⟩, fun _ => ?_⟩
    · simp [hw]
    · simp only [Position.offset_afterRune, hb, List.length_append, List.length_take]
      omega
    · exact ⟨before, hw, hb⟩

/-- So does reading a byte. -/
theorem Within.nextByte (h : c.Within whole) : c.nextByte.2.Within whole := by
  unfold Cursor.nextByte
  obtain ⟨before, hw, hb⟩ := h
  cases hc : c.rest with
  | nil => exact ⟨before, by rw [hw, hc], hb⟩
  | cons b rest =>
    rw [hc] at hw
    exact ⟨before ++ [b], by simp [hw], by simp [hb]⟩

end Cursor

/-- A cursor stays within its text. -/
def Correspondence.within (label : String) (whole : List UInt8) : Correspondence Cursor Cursor where
  label
  relocation := .same
  rel c d := d = c ∧ c.Within whole
  position h := by rw [h.1]; rfl
  nextRune h := .inl (by rw [h.1]; exact ⟨rfl, rfl, h.2.nextRune.1⟩)
  nextByte h := .inl (by rw [h.1]; exact ⟨rfl, rfl, h.2.nextByte⟩)
  peekByte h := .inl (by rw [h.1]; exact ⟨rfl, rfl, h.2⟩)
  unreadRune {s t c s' t'} h hs ht := by
    obtain ⟨rfl, h⟩ := h
    obtain ⟨hc, rfl⟩ := Cursor.nextRune_of_ok hs
    obtain ⟨-, rfl⟩ := Cursor.nextRune_of_ok ht
    exact ⟨rfl, h.nextRune.2 (by simp [hc])⟩

/-- A lexer on a cursor within its text. -/
theorem Correspondence.aligned_within {whole : List UInt8} {l : Lexer Cursor}
    (h : l.input.Within whole) : (within l.filename whole).Aligned l l := by
  have hevent : (within l.filename whole).relocation.event = id := funext Relocation.same_event
  refine ⟨⟨rfl, h⟩, rfl, rfl, l.journal, (List.append_nil _).symm, ?_⟩
  rw [hevent, List.map_id]
  exact (List.append_nil _).symm

/-- A lexer on a cursor within a text corresponds to itself. -/
theorem Correspondence.sim_within {whole : List UInt8} {l : Lexer Cursor}
    (h : l.input.Within whole) : (within l.filename whole).Sim l l :=
  ⟨aligned_within h, rfl⟩

/-! ## Streams without failures -/

namespace Reader

/-- A window that shows nothing stands at the end, and any other one shows what comes next. -/
theorem head?_visible {r : Reader} (h : r.chunk ≠ some 0)
    (hfaults : ∀ fault ∈ r.faults.head?, r.offset < fault.offset) :
    r.visible.head? = r.unread.head? := by
  have hpiece (n : Nat) (hn : r.chunk = some n) : (r.unread.take n).head? = r.unread.head? := by
    have hpos : n ≠ 0 := fun h0 => h (hn.trans (congrArg some h0))
    rw [List.head?_take, if_neg hpos]
  have hwindow (bytes : List UInt8) (fault : Fault) (hfault : r.faults.head? = some fault) :
      (bytes.take (fault.offset - r.offset)).head? = bytes.head? := by
    have hpos : fault.offset - r.offset ≠ 0 := Nat.sub_ne_zero_of_lt (hfaults fault hfault)
    rw [List.head?_take, if_neg hpos]
  unfold visible
  cases hchunk : r.chunk with
  | none =>
    cases hr : r.faults with
    | nil => rfl
    | cons fault later => exact hwindow _ fault (by rw [hr]; rfl)
  | some n =>
    cases hr : r.faults with
    | nil => exact hpiece n hchunk
    | cons fault later => exact (hwindow _ fault (by rw [hr]; rfl)).trans (hpiece n hchunk)

/-- A stream that never fails, and shows some bytes as long as there are any. -/
structure Steady (r : Reader) : Prop where
  faults : r.faults = []
  chunk : r.chunk ≠ some 0

/-- The pieces that a steady stream has left are as large, and it still never fails. -/
theorem Steady.advance {r : Reader} (h : r.Steady) : r.advance.Steady := ⟨h.faults, h.chunk⟩

/-- Such a stream hands out its bytes in order. -/
theorem Steady.takeByte {r : Reader} (h : r.Steady) :
    r.takeByte = match r.unread with
      | [] => (.ok none, r)
      | b :: _ => (.ok (some b), r.advance) := by
  have hw : r.window = (.ok r.visible, r) := by simp only [window, h.faults]
  have hv : r.visible.head? = r.unread.head? := head?_visible h.chunk (by simp [h.faults])
  rw [Reader.takeByte]
  split <;> rename_i hr <;> rw [hw] at hr
  · obtain ⟨hnone, rfl⟩ : r.visible = [] ∧ r = _ := by simpa using hr
    rw [hnone] at hv
    cases hu : r.unread <;> simp_all
  · rename_i b tail _
    obtain ⟨hsome, rfl⟩ : r.visible = b :: tail ∧ r = _ := by simpa using hr
    rw [hsome] at hv
    cases hu : r.unread <;> simp_all
  · cases hr
  · cases hr

end Reader

namespace Scanner

/-- What is left of a scanner that read or looked at some bytes: others may be unread, and nothing else
that can be told from outside has changed. -/
structure Leaves (s s' : Scanner) (bytes : List UInt8) : Prop where
  steady : s'.reader.Steady
  unread : s'.unread = bytes
  position : s'.position = s.position
  latest : s'.latest = s.latest

variable {s s' : Scanner} {bytes : List UInt8}

/-- Bytes that are put back are unread again, in front of the others. -/
theorem Leaves.pushBack (h : s.Leaves s' bytes) (more : List UInt8) :
    s.Leaves (s'.pushBack more) (more ++ bytes) where
  steady := h.steady
  unread := by rw [← h.unread]; exact List.append_assoc more _ _
  position := h.position
  latest := h.latest

/-- Of two such reads, the second one says what is left. -/
theorem Leaves.trans {s'' : Scanner} {bytes' : List UInt8} (h : s.Leaves s' bytes)
    (h' : s'.Leaves s'' bytes') : s.Leaves s'' bytes' :=
  ⟨h'.steady, h'.unread, h'.position.trans h.position, h'.latest.trans h.latest⟩

/-- From a steady stream the next byte is taken if there is one. -/
theorem rawByte_of_steady (h : s.reader.Steady) :
    ∃ s', s.rawByte = (.ok s.unread.head?, s') ∧ s.Leaves s' s.unread.tail := by
  have ht := h.takeByte
  cases hp : s.pushedBack with
  | cons b rest =>
    refine ⟨{ s with pushedBack := rest }, ?_, h, ?_, rfl, rfl⟩
    · simp [rawByte, unread, hp]
    · simp [unread, hp]
  | nil =>
    cases hu : s.reader.unread with
    | nil =>
      refine ⟨s, ?_, h, ?_, rfl, rfl⟩
      · obtain ⟨reader, position, pushedBack, latest⟩ := s
        simp_all [rawByte, unread]
      · simp [unread, hp, hu]
    | cons b rest =>
      refine ⟨{ s with reader := s.reader.advance }, ?_, h.advance, ?_, rfl, rfl⟩
      · simp [rawByte, unread, hp, hu, ht]
      · simp [unread, hp, hu, Reader.advance]

/-- The tail of a sequence is made of the continuation bytes that come next. -/
theorem rawTail_of_steady (n : Nat) (h : s.reader.Steady) :
    ∃ s', s.rawTail n = (.ok ((s.unread.takeWhile Utf8.isContinuation).take n), s') ∧
      s.Leaves s' (s.unread.drop ((s.unread.takeWhile Utf8.isContinuation).take n).length) := by
  -- on the bytes that are still wanted; a byte that continues nothing is put back
  induction n generalizing s with
  | zero => exact ⟨s, rfl, h, by simp, rfl, rfl⟩
  | succ n ih =>
    obtain ⟨s₁, hr, h₁⟩ := rawByte_of_steady h
    unfold rawTail
    rw [hr]
    cases hu : s.unread with
    | nil => exact ⟨s₁, rfl, by simpa [hu] using h₁⟩
    | cons b rest =>
      rw [hu] at h₁
      dsimp only [List.head?_cons]
      split
      · rename_i hb
        obtain ⟨s₂, hr₂, h₂⟩ := ih h₁.steady
        rw [h₁.unread, List.tail_cons] at hr₂ h₂
        refine ⟨s₂, by simp [hr₂, hb], h₁.trans ?_⟩
        simpa [hb] using h₂
      · rename_i hb
        refine ⟨s₁.pushBack [b], by simp [hb], ?_⟩
        simpa [hb] using h₁.pushBack [b]

/-- A scanner on a stream without failures and a cursor before the same bytes, at the same position, which
go back to the same point. -/
structure Follows (s : Scanner) (c : Cursor) : Prop where
  steady : s.reader.Steady
  unread : s.unread = c.rest
  position : s.position = c.position
  undo : c.undo = s.latest.map fun taken => (taken.bytes ++ s.unread, taken.before)

variable {c : Cursor}

/-- A scanner that follows a cursor reads the same character and goes on following. -/
theorem Follows.nextRune (h : s.Follows c) :
    ∃ s', s.nextRune = (.ok c.nextRune.1, s') ∧ s'.Follows c.nextRune.2 := by
  obtain ⟨s₁, hr, h₁⟩ := rawByte_of_steady h.steady
  unfold Scanner.nextRune Cursor.nextRune
  rw [hr]
  rw [h.unread] at h₁ ⊢
  cases hc : c.rest with
  | nil =>
    rw [hc] at h₁
    exact ⟨{ s₁ with latest := none }, rfl, h₁.steady, h₁.unread, h₁.position.trans h.position, rfl⟩
  | cons lead rest =>
    rw [hc] at h₁
    obtain ⟨s₂, hr₂, h₂⟩ := rawTail_of_steady (Utf8.width lead - 1) h₁.steady
    have h₂ := h₁.trans h₂
    rw [h₁.unread, List.tail_cons] at hr₂ h₂
    have htake := Utf8.next?_takeWhile lead rest
    simp only [List.head?_cons, hr₂, Utf8.nextRune]
    have hprefix : (rest.takeWhile Utf8.isContinuation).take (Utf8.width lead - 1) <+: rest :=
      (List.take_prefix _ _).trans (List.takeWhile_prefix _)
    have hshort := List.length_take_le (Utf8.width lead - 1) (rest.takeWhile Utf8.isContinuation)
    -- `tail` is all that decoding looks at behind the lead
    generalize (rest.takeWhile Utf8.isContinuation).take (Utf8.width lead - 1) = tail at *
    have hrest : tail ++ rest.drop tail.length = rest := List.prefix_iff_eq_append.mp hprefix
    have hposition : s₂.position = c.position := h₂.position.trans h.position
    cases hn : Utf8.next? (lead :: rest) with
    | none =>
      -- the lead alone is taken, and the rest is put back
      rw [htake, hn]
      have hunread := (h₂.pushBack tail).unread.trans hrest
      refine ⟨_, rfl, h₂.steady, hunread, ?_, ?_⟩
      · simp [take, pushBack, hposition]
      · rw [← hposition]
        exact congrArg (fun bytes => some (lead :: bytes, s₂.position)) hunread.symm
    | some x =>
      obtain ⟨rune, n⟩ := x
      have hlength : n = tail.length + 1 := by
        have hb := Utf8.next?_bounds (htake.trans hn)
        have hw := Utf8.length_of_next? hn
        rw [List.length_cons] at hb
        omega
      subst hlength
      rw [htake, hn]
      have hunread : tail ++ s₂.unread = rest := (congrArg (tail ++ ·) h₂.unread).trans hrest
      refine ⟨_, rfl, h₂.steady, h₂.unread, ?_, ?_⟩
      · simp [take, hposition]
      · rw [← hposition]
        exact congrArg (fun bytes => some (lead :: bytes, s₂.position)) hunread.symm

/-- A scanner that follows a cursor reads the same byte. -/
theorem Follows.nextByte (h : s.Follows c) :
    ∃ s', s.nextByte = (.ok c.nextByte.1, s') ∧ s'.Follows c.nextByte.2 := by
  have hlatest : ({ s with latest := none } : Scanner).unread = c.rest := h.unread
  obtain ⟨s₁, hr, h₁⟩ := rawByte_of_steady (s := { s with latest := none }) h.steady
  have hposition : s₁.position = c.position := h₁.position.trans h.position
  unfold Scanner.nextByte Cursor.nextByte
  rw [hr]
  rw [hlatest] at h₁ ⊢
  cases hc : c.rest with
  | nil =>
    rw [hc] at h₁
    exact ⟨s₁, rfl, h₁.steady, h₁.unread, hposition, by simp [h₁.latest]⟩
  | cons b rest =>
    rw [hc] at h₁
    refine ⟨_, rfl, h₁.steady, h₁.unread, ?_, ?_⟩
    · simp [hposition]
    · simp [h₁.latest]

/-- It shows the byte that the cursor has next, and stays where it is. -/
theorem Follows.peekByte (h : s.Follows c) :
    ∃ s', s.peekByte = (.ok c.rest.head?, s') ∧ s'.Follows c := by
  obtain ⟨s₁, hr, h₁⟩ := rawByte_of_steady h.steady
  -- whatever was looked at is unread again
  have hback {s' : Scanner} (hs' : s.Leaves s' s.unread) : s'.Follows c :=
    ⟨hs'.steady, hs'.unread.trans h.unread, hs'.position.trans h.position,
      by rw [hs'.latest, hs'.unread, h.undo]⟩
  unfold Scanner.peekByte
  rw [hr]
  rw [← h.unread]
  cases hu : s.unread with
  | nil =>
    rw [hu] at h₁ hback
    exact ⟨s₁, rfl, hback h₁⟩
  | cons b rest =>
    rw [hu] at h₁ hback
    exact ⟨_, rfl, hback (h₁.pushBack [b])⟩

/-- It puts a character back if the cursor does, and goes on following. -/
theorem Follows.unreadRune (h : s.Follows c) :
    s.unreadRune.1 = c.unreadRune.1 ∧ s.unreadRune.2.Follows c.unreadRune.2 := by
  have hundo := h.undo
  unfold Scanner.unreadRune Cursor.unreadRune
  cases hl : s.latest with
  | none =>
    rw [hl] at hundo
    rw [hundo]
    exact ⟨rfl, h⟩
  | some taken =>
    rw [hl] at hundo
    rw [hundo]
    exact ⟨rfl, h.steady, List.append_assoc taken.bytes _ _, rfl, rfl⟩

end Scanner

/-- A scanner that follows a cursor reads what the cursor reads. -/
def Correspondence.ofReader (label : String) : Correspondence Scanner Cursor where
  label
  relocation := .same
  rel := Scanner.Follows
  position h := h.position.symm
  nextRune h := by
    obtain ⟨s', hs, h'⟩ := h.nextRune
    exact .inl ⟨by simp [Input.nextRune, hs], by simpa [Input.nextRune, hs] using h'⟩
  nextByte h := by
    obtain ⟨s', hs, h'⟩ := h.nextByte
    exact .inl ⟨by simp [Input.nextByte, hs], by simpa [Input.nextByte, hs] using h'⟩
  peekByte h := by
    obtain ⟨s', hs, h'⟩ := h.peekByte
    exact .inl ⟨by simp [Input.peekByte, hs], by simpa [Input.peekByte, hs] using h'⟩
  unreadRune {s t c s' t'} h hs ht := by
    obtain ⟨s₁, hs₁, h'⟩ := h.nextRune
    obtain ⟨-, rfl⟩ := Cursor.nextRune_of_ok ht
    obtain ⟨-, rfl⟩ := Prod.mk.inj (hs₁.symm.trans hs)
    exact h'.unreadRune.2

namespace Scanner

/-- The cursor before the bytes that a scanner has not yet taken. -/
def cursor (s : Scanner) : Cursor where
  rest := s.unread
  position := s.position
  undo := s.latest.map fun taken => (taken.bytes ++ s.unread, taken.before)

/-- A scanner follows the cursor before its unread bytes. -/
theorem follows_cursor {s : Scanner} (h : s.reader.Steady) : s.Follows s.cursor := ⟨h, rfl, rfl, rfl⟩

end Scanner

/-- Nothing differs between a steady stream and its bytes held in memory. -/
theorem Correspondence.exact_ofReader (label : String) : (ofReader label).Exact := ⟨rfl, fun _ => id⟩

namespace Lexer

variable {l : Lexer Scanner}

/-- The lexer on the bytes that are left of the stream. -/
def overCursor (l : Lexer Scanner) : Lexer Cursor := { l with input := l.input.cursor }

/-- A lexer on a stream corresponds to the lexer on its bytes. -/
theorem sim_overCursor (h : l.input.reader.Steady) :
    (Correspondence.ofReader l.filename).Sim l l.overCursor where
  input := Scanner.follows_cursor h
  label := rfl
  filename := rfl
  journal := ⟨l.journal, by simp [Correspondence.ofReader],
    by simp [Correspondence.ofReader, overCursor, funext Relocation.same_event]⟩
  tokenStart := rfl

/-- A token of a stream that does not fail is the token of the bytes that are left of it. -/
theorem readToken_of_steady (escape : EscapeSet) (commandOpen : Bool) (h : l.input.reader.Steady) :
    (l.readToken escape commandOpen).1 = (l.overCursor.readToken escape commandOpen).1 ∧
      (l.readToken escape commandOpen).2.input.Follows
        (l.overCursor.readToken escape commandOpen).2.input := by
  obtain ⟨hanswer, sim⟩ := (Correspondence.exact_ofReader l.filename).readToken
    (sim_overCursor h).toAligned escape commandOpen
  exact ⟨hanswer.symm, sim.input⟩

/-- So are the commands. -/
theorem readCommand_of_steady (escape : EscapeSet) (h : l.input.reader.Steady) :
    (l.readCommand escape).1 = (l.overCursor.readCommand escape).1 ∧
      (l.readCommand escape).2.input.Follows (l.overCursor.readCommand escape).2.input := by
  obtain ⟨hanswer, sim⟩ := (Correspondence.exact_ofReader l.filename).readCommand
    (sim_overCursor h).toAligned escape
  exact ⟨hanswer.symm, sim.input⟩

end Lexer

/-! ## Bytes behind other bytes -/

/-- A position that counts lines and columns from one. -/
structure Position.Counted (p : Position) : Prop where
  line : 1 ≤ p.line
  column : 1 ≤ p.column

namespace Position.Counted

variable {p : Position}

/-- Lines and columns count from one. -/
theorem start : Position.start.Counted := ⟨Nat.le_refl _, Nat.le_refl _⟩

/-- Reading a character leaves lines and columns counted from one. -/
theorem afterRune (h : p.Counted) (c : Char) (length : Nat) : (p.afterRune c length).Counted := by
  unfold Position.afterRune
  split
  · exact ⟨Nat.le_add_left _ _, Nat.le_refl _⟩
  · exact ⟨h.line, Nat.le_add_left _ _⟩

/-- So does reading a byte. -/
theorem afterByte (h : p.Counted) (b : UInt8) : (p.afterByte b).Counted := by
  unfold Position.afterByte
  split
  · exact ⟨Nat.le_add_left _ _, Nat.le_refl _⟩
  · split
    · exact ⟨h.line, h.column⟩
    · exact ⟨h.line, Nat.le_add_left _ _⟩

end Position.Counted

namespace Relocation

variable {p : Position}

/-- What stood at the start stands behind the other text. -/
theorem after_start (origin : Position) : (after origin).position .start = origin := by
  simp [after, Position.start]

/-- Moving first and reading a character then comes to the same as the other way round. -/
theorem after_afterRune (origin : Position) (h : p.Counted) (c : Char) (length : Nat) :
    (after origin).position (p.afterRune c length) =
      ((after origin).position p).afterRune c length := by
  have hline := h.line
  have hcolumn := h.column
  by_cases hc : c = '\n' <;> by_cases hl : p.line = 1 <;>
    simp [after, Position.afterRune, hc, hl] <;> omega

/-- So it does with a byte. -/
theorem after_afterByte (origin : Position) (h : p.Counted) (b : UInt8) :
    (after origin).position (p.afterByte b) = ((after origin).position p).afterByte b := by
  have hline := h.line
  have hcolumn := h.column
  by_cases hb : b = 0x0A <;> by_cases hm : Utf8.isContinuation b <;> by_cases hl : p.line = 1 <;>
    simp [after, Position.afterByte, hb, hm, hl] <;> omega

end Relocation

namespace Cursor

/-- A cursor before the same bytes, behind the ones that end at `origin`. -/
structure Shifted (origin : Position) (c d : Cursor) : Prop where
  rest : d.rest = c.rest
  position : d.position = (Relocation.after origin).position c.position
  counted : c.position.Counted

variable {origin : Position} {c d : Cursor}

/-- Behind other bytes the same character is read, and put back. -/
theorem Shifted.nextRune (h : Shifted origin c d) :
    d.nextRune.1 = c.nextRune.1 ∧ Shifted origin c.nextRune.2 d.nextRune.2 ∧
      (c.nextRune.1.isSome →
        Shifted origin c.nextRune.2.unreadRune.2 d.nextRune.2.unreadRune.2) := by
  unfold Cursor.nextRune
  rw [h.rest]
  cases c.rest with
  | nil => exact ⟨rfl, ⟨rfl, h.position, h.counted⟩, by simp⟩
  | cons lead rest =>
    refine ⟨rfl, ⟨rfl, ?_, h.counted.afterRune _ _⟩, fun _ => ⟨rfl, h.position, h.counted⟩⟩
    dsimp only
    rw [h.position, Relocation.after_afterRune origin h.counted]

/-- So is the same byte. -/
theorem Shifted.nextByte (h : Shifted origin c d) :
    d.nextByte.1 = c.nextByte.1 ∧ Shifted origin c.nextByte.2 d.nextByte.2 := by
  unfold Cursor.nextByte
  rw [h.rest]
  cases c.rest with
  | nil => exact ⟨rfl, rfl, h.position, h.counted⟩
  | cons b rest =>
    refine ⟨rfl, rfl, ?_, h.counted.afterByte b⟩
    dsimp only
    rw [h.position, Relocation.after_afterByte origin h.counted]

end Cursor

/-- Bytes that stand behind others read as they do from the start, with positions that moved. -/
def Correspondence.shifted (label : String) (origin : Position) (earlier' : List Event) :
    Correspondence Cursor Cursor where
  label
  relocation := .after origin
  rel := Cursor.Shifted origin
  earlier'
  position h := h.position
  nextRune h := .inl ⟨congrArg Except.ok h.nextRune.1, h.nextRune.2.1⟩
  nextByte h := .inl ⟨congrArg Except.ok h.nextByte.1, h.nextByte.2⟩
  peekByte h := .inl ⟨congrArg (fun bytes => Except.ok bytes.head?) h.rest, h⟩
  unreadRune {s t c s' t'} h hs ht := by
    obtain ⟨hc, rfl⟩ := Cursor.nextRune_of_ok hs
    obtain ⟨-, rfl⟩ := Cursor.nextRune_of_ok ht
    exact h.nextRune.2.2 (by simp [hc])

/-! ## Bytes before other bytes -/

namespace Cursor

/-- A cursor within a text, and one at the same point of the text with `more` behind it. -/
structure Extended (whole more : List UInt8) (c d : Cursor) : Prop where
  rest : d.rest = c.rest ++ more
  position : d.position = c.position
  suffix : c.rest <:+ whole

variable {whole more : List UInt8} {c d : Cursor}

/-- Where no bytes are left there is no character, and none to put back. -/
theorem nextRune_of_isEmpty (h : c.rest = []) : c.nextRune = (none, { c with undo := none }) := by
  simp [Cursor.nextRune, h]

/-- Nor is there a byte. -/
theorem nextByte_of_isEmpty (h : c.rest = []) : c.nextByte = (none, { c with undo := none }) := by
  simp [Cursor.nextByte, h]

/-- With more behind them, whole sequences are read as the same characters. -/
theorem Extended.nextRune (h : Extended whole more c d) (hwhole : Utf8.Complete whole)
    (hc : c.rest ≠ []) :
    d.nextRune.1 = c.nextRune.1 ∧ Extended whole more c.nextRune.2 d.nextRune.2 ∧
      Extended whole more c.nextRune.2.unreadRune.2 d.nextRune.2.unreadRune.2 := by
  have hsuffix := h.suffix
  unfold Cursor.nextRune
  rw [h.rest]
  cases hr : c.rest with
  | nil => exact (hc hr).elim
  | cons lead rest =>
    rw [hr] at hsuffix
    have hn : Utf8.nextRune lead (rest ++ more) = Utf8.nextRune lead rest := by
      unfold Utf8.nextRune
      rw [← List.cons_append, hwhole lead rest hsuffix]
    have hl := Utf8.length_nextRune_le lead rest
    rw [List.cons_append]
    dsimp only
    rw [hn, ← List.cons_append, List.drop_append_of_le_length hl, h.position]
    exact ⟨rfl, ⟨rfl, rfl, (List.drop_suffix _ _).trans hsuffix⟩, ⟨rfl, rfl, hsuffix⟩⟩

/-- So are bytes. -/
theorem Extended.nextByte (h : Extended whole more c d) (hc : c.rest ≠ []) :
    d.nextByte.1 = c.nextByte.1 ∧ Extended whole more c.nextByte.2 d.nextByte.2 := by
  have hsuffix := h.suffix
  unfold Cursor.nextByte
  rw [h.rest]
  cases hr : c.rest with
  | nil => exact (hc hr).elim
  | cons b rest =>
    rw [hr] at hsuffix
    rw [List.cons_append, h.position]
    exact ⟨rfl, rfl, rfl, (List.suffix_cons b rest).trans hsuffix⟩

end Cursor

/-- Bytes that end in a whole sequence read the same with more bytes behind them, up to their end. -/
def Correspondence.extended (label : String) {whole : List UInt8} (hwhole : Utf8.Complete whole)
    (more : List UInt8) : Correspondence Cursor Cursor where
  label
  relocation := .same
  rel := Cursor.Extended whole more
  stop c := c.rest = []
  position h := h.position
  nextRune {s t} h := by
    by_cases hs : s.rest = []
    · rw [show Input.nextRune s = (.ok none, { s with undo := none }) by
        simp [Input.nextRune, Cursor.nextRune_of_isEmpty hs]]
      exact .inr ⟨rfl, hs⟩
    · exact .inl ⟨congrArg Except.ok (h.nextRune hwhole hs).1, (h.nextRune hwhole hs).2.1⟩
  nextByte {s t} h := by
    by_cases hs : s.rest = []
    · rw [show Input.nextByte s = (.ok none, { s with undo := none }) by
        simp [Input.nextByte, Cursor.nextByte_of_isEmpty hs]]
      exact .inr ⟨rfl, hs⟩
    · exact .inl ⟨congrArg Except.ok (h.nextByte hs).1, (h.nextByte hs).2⟩
  peekByte {s t} h := by
    by_cases hs : s.rest = []
    · exact .inr ⟨by simp [Input.peekByte, hs], hs⟩
    · refine .inl ⟨congrArg Except.ok ?_, h⟩
      cases hr : s.rest with
      | nil => exact (hs hr).elim
      | cons b rest => rw [h.rest, hr, List.cons_append, List.head?_cons, List.head?_cons]
  unreadRune {s t c s' t'} h hs ht := by
    obtain ⟨hc, rfl⟩ := Cursor.nextRune_of_ok hs
    obtain ⟨-, rfl⟩ := Cursor.nextRune_of_ok ht
    refine (h.nextRune hwhole fun hn => ?_).2.2
    simp [Cursor.nextRune_of_isEmpty hn] at hc
  stop_nextRune {s} hs := ⟨{ s with undo := none },
    by simp [Input.nextRune, Cursor.nextRune_of_isEmpty hs], hs⟩

/-- Lexers at the start of a text and of the text with more behind it. -/
theorem Correspondence.sim_extended (label : String) {whole : List UInt8}
    (hwhole : Utf8.Complete whole) (more : List UInt8) :
    (extended label hwhole more).Sim (.ofInput (.ofBytes whole) label)
      (.ofInput (.ofBytes (whole ++ more)) label) :=
  ⟨⟨⟨rfl, rfl, List.suffix_refl _⟩, rfl, rfl, [], rfl, rfl⟩, rfl⟩

/-! ## Parsers on bytes -/

/-- A parser before the first byte of a stream that holds these bytes and does not fail. -/
def Parser.ofBytes (bytes : List UInt8) (filename : String) (escape : EscapeSet) : Parser Scanner :=
  .ofInput (.ofReader { unread := bytes }) filename escape

/-- The same on a cursor. -/
def Parser.ofCursor (bytes : List UInt8) (filename : String) (escape : EscapeSet) : Parser Cursor :=
  .ofInput (.ofBytes bytes) filename escape

/-- Before the first read, all bytes are left. -/
@[simp] theorem Parser.rest_ofCursor (bytes : List UInt8) (filename : String) (escape : EscapeSet) :
    (Parser.ofCursor bytes filename escape).lexer.input.rest = bytes := rfl

namespace Correspondence

open Lexer

/-- A stream that does not fail is read as its bytes in memory are. -/
theorem parsers_ofBytes (bytes : List UInt8) (filename : String) (escape : EscapeSet) :
    (ofReader filename).Parsers (.ofBytes bytes filename escape) (.ofCursor bytes filename escape) where
  lexer := (sim_overCursor (l := (Parser.ofBytes bytes filename escape).lexer) ⟨rfl, nofun⟩).toAligned
  escape := rfl
  failed := rfl

end Correspondence

/-- What a parser yields from a stream is what it yields from the bytes of it. -/
theorem Parser.items_ofBytes (bytes : List UInt8) (filename : String) (escape : EscapeSet) :
    (Parser.ofBytes bytes filename escape).items.1 = (Parser.ofCursor bytes filename escape).items.1 :=
  ((Correspondence.exact_ofReader filename).items
    (Correspondence.parsers_ofBytes bytes filename escape)).1.symm

section

variable {bytes rest : List UInt8} {filename : String} {escape : EscapeSet}

/-- A read of a stream leaves what the same read in memory leaves. -/
theorem Lexer.exists_read_of_follows {α : Type} {x : Read Scanner α} {y : Read Cursor α}
    {r : Except ParseError α} (h : x.1 = y.1 ∧ x.2.input.Follows y.2.input) :
    (∃ l, x = (r, l) ∧ l.input.unread = rest) ↔ ∃ l, y = (r, l) ∧ l.input.rest = rest := by
  obtain ⟨r₁, l₁⟩ := x
  obtain ⟨r₂, l₂⟩ := y
  obtain ⟨rfl, hfollows⟩ := h
  simp [Prod.mk.injEq, and_assoc, hfollows.unread]

/-- A token that a stream begins with is one that its bytes begin with, and the same is left. -/
theorem Parser.exists_readToken_ofBytes {commandOpen : Bool} {t : Option Token} :
    (∃ l, (ofBytes bytes filename escape).lexer.readToken escape commandOpen = (.ok t, l) ∧
        l.input.unread = rest) ↔
      ∃ l, (ofCursor bytes filename escape).lexer.readToken escape commandOpen = (.ok t, l) ∧
        l.input.rest = rest :=
  Lexer.exists_read_of_follows <| Lexer.readToken_of_steady
    (l := (ofBytes bytes filename escape).lexer) escape commandOpen ⟨rfl, nofun⟩

/-- Whether a text is one token: it is read at once, and nothing is left. -/
def IsOneToken (bytes : List UInt8) (filename : String) (escape : EscapeSet) (t : Token) : Prop :=
  ∀ commandOpen, ∃ l,
    (Parser.ofBytes bytes filename escape).lexer.readToken escape commandOpen = (.ok (some t), l) ∧
      l.input.unread = []

/-- A text is one token in one way only. -/
theorem IsOneToken.unique {t t' : Token} (h : IsOneToken bytes filename escape t)
    (h' : IsOneToken bytes filename escape t') : t = t' := by
  obtain ⟨l, hread, -⟩ := h false
  obtain ⟨l', hread', -⟩ := h' false
  rw [hread] at hread'
  cases hread'
  rfl

/-- To be one token, it is enough for a text to be read as one from memory. -/
theorem isOneToken_of_cursor {t : Token} (h : ∀ commandOpen, ∃ l,
    (Parser.ofCursor bytes filename escape).lexer.readToken escape commandOpen = (.ok (some t), l) ∧
      l.input.rest = []) : IsOneToken bytes filename escape t :=
  fun commandOpen => Parser.exists_readToken_ofBytes.mpr (h commandOpen)

end

end ShellScript
