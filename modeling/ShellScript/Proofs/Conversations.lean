import ShellScript.Proofs.Inputs
import ShellScript.Proofs.Positions

/-!
# Conversations with a scanner

A scanner is asked for characters, for bytes, for a look ahead, for the next line, or to take a character
back, in any order. `Conversation` says which answers some bytes call for: each request is answered from
the point that was reached, and whether a character can be put back depends on the requests before. Every
conversation with a scanner on a stream that does not fail is one of these (`conversation_of_converse`),
however much of the stream is shown at a time. The stack of bytes and the character that the scanner
remembers are not to be told from outside.
-/

namespace ShellScript

/-! ## Requests and answers -/

/-- What a scanner can be asked for. -/
inductive Request
  | nextRune
  | nextByte
  | peekByte
  | unreadRune
  | skipToNewline
  deriving DecidableEq, Repr

/-- What a scanner answers. -/
inductive Answer
  | rune (c : Option Char)
  | byte (b : Option UInt8)
  | flag (yes : Bool)
  deriving DecidableEq, Repr

/-- A request with its answer, and the positions before and after. -/
structure Exchange where
  request : Request
  answer : Except ReadError Answer
  before : Position
  after : Position

namespace Input

variable {σ : Type} [Input σ]

/-- Answers one request. -/
def ask (s : σ) : Request → Except ReadError Answer × σ
  | .nextRune => ((nextRune s).1.map .rune, (nextRune s).2)
  | .nextByte => ((nextByte s).1.map .byte, (nextByte s).2)
  | .peekByte => ((peekByte s).1.map .byte, (peekByte s).2)
  | .unreadRune => (.ok (.flag (unreadRune s).1), (unreadRune s).2)
  | .skipToNewline => ((skipToNewline s).1.map .flag, (skipToNewline s).2)

/-- The exchange that a request leads to. -/
def exchange (s : σ) (request : Request) : Exchange :=
  ⟨request, (ask s request).1, position s, position (ask s request).2⟩

/-- Answers requests one after the other, after some exchanges. The latest exchange comes first. -/
def converse (history : List Exchange) (s : σ) : List Request → List Exchange × σ
  | [] => (history, s)
  | request :: requests =>
    converse (exchange s request :: history) (ask s request).2 requests

/-- Exchanges are the same if the answers and the positions are. -/
theorem exchange_congr {τ : Type} [Input τ] {s : σ} {t : τ} {request : Request}
    (hanswer : (ask t request).1 = (ask s request).1) (hbefore : position t = position s)
    (hafter : position (ask t request).2 = position (ask s request).2) :
    exchange t request = exchange s request := by
  rw [exchange, exchange, hanswer, hbefore, hafter]

/-- A conversation answers the requests in the order in which they are made. -/
theorem requests_converse (history : List Exchange) (s : σ) (requests : List Request) :
    (converse history s requests).1.map Exchange.request =
      requests.reverse ++ history.map Exchange.request := by
  induction requests generalizing history s with
  | nil => rfl
  | cons request requests ih => simp [converse, ih, exchange]

/-- The exchanges of a conversation stand before the earlier ones, which do not matter for them. -/
theorem converse_eq (history : List Exchange) (s : σ) (requests : List Request) :
    converse history s requests = ((converse [] s requests).1 ++ history, (converse [] s requests).2) := by
  induction requests generalizing history s with
  | nil => rfl
  | cons request requests ih =>
    rw [converse, converse, ih, ih [exchange s request]]
    simp

/-- A conversation is its first exchange, and one from there. -/
theorem converse_cons (s : σ) (request : Request) (requests : List Request) :
    converse [] s (request :: requests) =
      ((converse [] (ask s request).2 requests).1 ++ [exchange s request],
        (converse [] (ask s request).2 requests).2) :=
  converse_eq [exchange s request] (ask s request).2 requests

end Input

/-! ## What the bytes call for -/

namespace Exchange

/-- Whether a character was read. -/
def TookRune (x : Exchange) : Prop :=
  x.request = .nextRune ∧ ∃ c, x.answer = .ok (.rune (some c))

/-- Whether nothing was read and nothing was put back. -/
def Idle (x : Exchange) : Prop :=
  x.request = .peekByte ∨ x.request = .skipToNewline ∧ x.after.offset = x.before.offset

end Exchange

/-- Whether the latest read in a history took a character that was not put back since. -/
inductive Returnable (x : Exchange) : List Exchange → Prop
  | taken {earlier} (took : x.TookRune) : Returnable x (x :: earlier)
  | kept {y earlier} (idle : y.Idle) (h : Returnable x earlier) : Returnable x (y :: earlier)

/-- The answer to a request at `p`, and the position `q` that it leads to. -/
inductive Answers (bytes : List UInt8) (history : List Exchange) (p q : Position) :
    Request → Answer → Prop
  | rune {c : Char} (sequence : String.utf8EncodeChar c <+: bytes.drop p.offset)
    (moves : q.offset = p.offset + (String.utf8EncodeChar c).length) :
    Answers bytes history p q .nextRune (.rune (some c))
  | malformed (inside : p.offset < bytes.length)
    (noSequence : ∀ c, ¬String.utf8EncodeChar c <+: bytes.drop p.offset)
    (moves : q.offset = p.offset + 1) :
    Answers bytes history p q .nextRune (.rune (some Utf8.replacement))
  | noRune (atEnd : p.offset = bytes.length) (stays : q = p) :
    Answers bytes history p q .nextRune (.rune none)
  | byte {b : UInt8} (here : bytes[p.offset]? = some b) (moves : q.offset = p.offset + 1) :
    Answers bytes history p q .nextByte (.byte (some b))
  | noByte (atEnd : p.offset = bytes.length) (stays : q = p) :
    Answers bytes history p q .nextByte (.byte none)
  | shown (stays : q = p) : Answers bytes history p q .peekByte (.byte bytes[p.offset]?)
  | returned {x : Exchange} (returnable : Returnable x history) (restores : q = x.before) :
    Answers bytes history p q .unreadRune (.flag true)
  | notReturned (nothing : ∀ x, ¬Returnable x history) (stays : q = p) :
    Answers bytes history p q .unreadRune (.flag false)
  | skipped (onward : p.offset ≤ q.offset) (newline : bytes[q.offset]? = some 0x0A)
    (first : ∀ i, p.offset ≤ i → i < q.offset → bytes[i]? ≠ some 0x0A) :
    Answers bytes history p q .skipToNewline (.flag true)
  | ended (onward : p.offset ≤ q.offset) (atEnd : q.offset = bytes.length)
    (none : ∀ i, p.offset ≤ i → i < q.offset → bytes[i]? ≠ some 0x0A) :
    Answers bytes history p q .skipToNewline (.flag false)

/-- Exchanges from the start of some bytes up to a position, the latest first. The offset of every
position is an index into the bytes, and its line is one more than the newlines before that index. -/
inductive Conversation (bytes : List UInt8) : Position → List Exchange → Prop
  | start : Conversation bytes .start []
  | exchange {p q : Position} {history : List Exchange} {request : Request} {answer : Answer}
    (earlier : Conversation bytes p history) (answers : Answers bytes history p q request answer)
    (inside : q.offset ≤ bytes.length) (line : q.line = 1 + (bytes.take q.offset).count 0x0A) :
    Conversation bytes q (⟨request, .ok answer, p, q⟩ :: history)

/-! ## Positions in the bytes -/

namespace Position

/-- Where a position stands: before `rest` in `bytes`. -/
def Marks (bytes rest : List UInt8) (p : Position) : Prop :=
  ∃ before, bytes = before ++ rest ∧ p.offset = before.length ∧ p.line = 1 + before.count 0x0A

variable {bytes taken rest : List UInt8} {p q : Position}

/-- All of the bytes are behind the start. -/
theorem Marks.start (bytes : List UInt8) : Position.start.Marks bytes bytes := ⟨[], rfl, rfl, rfl⟩

/-- An offset is an index into the bytes, or their number. -/
theorem Marks.inside (h : p.Marks bytes rest) : p.offset ≤ bytes.length := by
  obtain ⟨before, rfl, hoffset, -⟩ := h
  simp [hoffset]

/-- What is left is what stands behind the offset. -/
theorem Marks.drop_offset (h : p.Marks bytes rest) : bytes.drop p.offset = rest := by
  obtain ⟨before, rfl, hoffset, -⟩ := h
  rw [hoffset, List.drop_left]

/-- The line counts the newlines in front of the offset. -/
theorem Marks.line_eq (h : p.Marks bytes rest) :
    p.line = 1 + (bytes.take p.offset).count 0x0A := by
  obtain ⟨before, rfl, hoffset, hline⟩ := h
  rw [hoffset, List.take_left, hline]

/-- The byte at the offset is the first that is left. -/
theorem Marks.getElem? (h : p.Marks bytes rest) : bytes[p.offset]? = rest.head? := by
  rw [← h.drop_offset, List.head?_drop]

/-- Where a byte is left, the offset is one of a byte. -/
theorem Marks.offset_lt {b : UInt8} (h : p.Marks bytes (b :: rest)) : p.offset < bytes.length := by
  obtain ⟨before, rfl, hoffset, -⟩ := h
  simp [hoffset]

/-- Where nothing is left, all bytes are behind the position. -/
theorem Marks.atEnd (h : p.Marks bytes []) : p.offset = bytes.length := by
  obtain ⟨before, rfl, hoffset, -⟩ := h
  rw [hoffset, List.append_nil]

/-- A position moves past some bytes. -/
theorem Marks.advance (taken : List UInt8) (h : p.Marks bytes (taken ++ rest))
    (hoffset : q.offset = p.offset + taken.length) (hline : q.line = p.line + taken.count 0x0A) :
    q.Marks bytes rest := by
  obtain ⟨before, hbytes, hp, hpline⟩ := h
  refine ⟨before ++ taken, by rw [hbytes, List.append_assoc], ?_, ?_⟩
  · rw [hoffset, hp, List.length_append]
  · rw [hline, hpline, List.count_append]
    omega

/-- Only a newline leads to another line. -/
theorem line_afterByte (p : Position) (b : UInt8) : (p.afterByte b).line = p.line + [b].count 0x0A := by
  unfold afterByte
  by_cases hb : b = 0x0A
  · simp [hb]
  · have hcount : [b].count 0x0A = 0 := by simp [hb]
    rw [if_neg hb, hcount]
    split <;> rfl

/-- The newline is the only character with the byte of the newline in it. -/
theorem line_afterRune (p : Position) (c : Char) (n : Nat) :
    (p.afterRune c n).line = p.line + (String.utf8EncodeChar c).count 0x0A := by
  unfold afterRune
  by_cases hc : c = '\n'
  · subst hc
    rfl
  · have hnot : (0x0A : UInt8) ∉ String.utf8EncodeChar c :=
      fun h => hc (Utf8.eq_of_ascii_mem (d := '\n') (by decide) h)
    rw [if_neg hc, List.count_eq_zero_of_not_mem hnot]
    rfl

end Position

/-! ## What can be put back -/

section

variable {bytes : List UInt8} {history : List Exchange} {undo : Option (List UInt8 × Position)}
  {x y : Exchange}

/-- An exchange that reads nothing takes no character. -/
theorem Exchange.Idle.not_tookRune (h : x.Idle) : ¬x.TookRune := by
  rintro ⟨hrune, -⟩
  rcases h with h | ⟨h, -⟩ <;> rw [h] at hrune <;> cases hrune

/-- Where a cursor goes back to: the point before the character that can be put back. -/
def Undoes (bytes : List UInt8) (history : List Exchange) : Option (List UInt8 × Position) → Prop
  | none => ∀ x, ¬Returnable x history
  | some (rest, p) => p.Marks bytes rest ∧ ∃ x, Returnable x history ∧ x.before = p

/-- After a request that reads nothing it is the same point. -/
theorem Undoes.idle (h : Undoes bytes history undo) (hy : y.Idle) :
    Undoes bytes (y :: history) undo := by
  match undo with
  | none =>
    intro x hx
    cases hx with
    | taken took => exact hy.not_tookRune took
    | kept _ hx => exact h x hx
  | some (rest, p) =>
    obtain ⟨hmarks, x, hx, hbefore⟩ := h
    exact ⟨hmarks, x, .kept hy hx, hbefore⟩

/-- After a read that took no character there is nothing to put back. -/
theorem Undoes.none_of_read (htook : ¬y.TookRune) (hidle : ¬y.Idle) :
    Undoes bytes (y :: history) none := by
  intro x hx
  cases hx with
  | taken took => exact htook took
  | kept idle => exact hidle idle

/-- After a character was read, the cursor goes back to where that was. -/
theorem Undoes.some_of_tookRune {rest : List UInt8} (hy : y.TookRune)
    (hmarks : y.before.Marks bytes rest) : Undoes bytes (y :: history) (some (rest, y.before)) :=
  ⟨hmarks, y, .taken hy, rfl⟩

end

/-! ## Conversations with a cursor -/

namespace Cursor

/-- A cursor after a conversation: it stands where the conversation ended, and it goes back to where the
character was read that can be put back. -/
structure Heard (bytes : List UInt8) (history : List Exchange) (c : Cursor) : Prop where
  conversation : Conversation bytes c.position history
  marks : c.position.Marks bytes c.rest
  undo : Undoes bytes history c.undo

variable {bytes : List UInt8} {history : List Exchange} {c c' : Cursor}

/-- Before anything was said, a cursor stands at the start. -/
theorem Heard.start (bytes : List UInt8) : Heard bytes [] (ofBytes bytes) where
  conversation := .start
  marks := .start bytes
  undo := nofun

/-- After a right answer, what is left is where the cursor stands and what it can put back. -/
theorem Heard.answered (h : Heard bytes history c) {request : Request} {answer : Answer}
    (ask : Input.ask c request = (.ok answer, c'))
    (answers : Answers bytes history c.position c'.position request answer)
    (marks : c'.position.Marks bytes c'.rest)
    (undo : Undoes bytes (⟨request, .ok answer, c.position, c'.position⟩ :: history) c'.undo) :
    Heard bytes (Input.exchange c request :: history) (Input.ask c request).2 := by
  rw [Input.exchange, ask]
  exact ⟨.exchange h.conversation answers marks.inside marks.line_eq, marks, undo⟩

/-- Reading a character goes on with the conversation, and is what can be put back. -/
theorem Heard.nextRune (h : Heard bytes history c) :
    Heard bytes (Input.exchange c .nextRune :: history) (Input.ask c .nextRune).2 := by
  have hmarks := h.marks
  cases hr : c.rest with
  | nil =>
    have hask : Input.ask c .nextRune = (.ok (.rune none), { c with undo := none }) := by
      simp [Input.ask, Input.nextRune, nextRune_of_isEmpty hr, Except.map]
    rw [hr] at hmarks
    refine h.answered hask (.noRune hmarks.atEnd rfl) h.marks (.none_of_read ?_ ?_)
    · simp [Exchange.TookRune]
    · simp [Exchange.Idle]
  | cons lead rest =>
    rw [hr] at hmarks
    cases hn : Utf8.next? (lead :: rest) with
    | none =>
      -- the lead alone is taken; it is not the newline, which is a character by itself
      have hask : Input.ask c .nextRune = (.ok (.rune (some Utf8.replacement)),
          { rest, position := c.position.afterRune Utf8.replacement 1,
            undo := some (lead :: rest, c.position) }) := by
        simp [Input.ask, Input.nextRune, Cursor.nextRune, Utf8.nextRune, hr, hn, Except.map]
      have hnewline : lead ≠ 0x0A := by
        rintro rfl
        cases hn
      have hcount : [lead].count 0x0A = 0 := by simp [hnewline]
      have hno : ∀ d, ¬String.utf8EncodeChar d <+: bytes.drop c.position.offset := by
        rw [hmarks.drop_offset]
        exact Utf8.next?_eq_none_iff.mp hn
      have hoffset := Position.offset_afterRune c.position Utf8.replacement 1
      refine h.answered hask (.malformed hmarks.offset_lt hno hoffset) ?_
        (.some_of_tookRune ⟨rfl, _, rfl⟩ hmarks)
      exact hmarks.advance [lead] hoffset (by rw [hcount]; rfl)
    | some found =>
      obtain ⟨rune, n⟩ := found
      obtain ⟨⟨rest', hrest⟩, rfl⟩ := Utf8.next?_eq_some_iff.mp hn
      have hdrop : (lead :: rest).drop (String.utf8EncodeChar rune).length = rest' := by
        rw [← hrest, List.drop_left]
      have hask : Input.ask c .nextRune = (.ok (.rune (some rune)),
          { rest := rest', position := c.position.afterRune rune (String.utf8EncodeChar rune).length,
            undo := some (lead :: rest, c.position) }) := by
        simp only [Input.ask, Input.nextRune, Cursor.nextRune, Utf8.nextRune, hr, hn, Except.map,
          Option.getD_some, hdrop]
      have hsequence : String.utf8EncodeChar rune <+: bytes.drop c.position.offset :=
        hmarks.drop_offset ▸ ⟨rest', hrest⟩
      have hoffset := Position.offset_afterRune c.position rune (String.utf8EncodeChar rune).length
      refine h.answered hask (.rune hsequence hoffset) ?_ (.some_of_tookRune ⟨rfl, _, rfl⟩ hmarks)
      exact (hrest ▸ hmarks).advance _ hoffset (Position.line_afterRune _ _ _)

/-- Reading a byte goes on with it, and forgets the character before. -/
theorem Heard.nextByte (h : Heard bytes history c) :
    Heard bytes (Input.exchange c .nextByte :: history) (Input.ask c .nextByte).2 := by
  have hmarks := h.marks
  have hundo {answer : Except ReadError Answer} {q : Position} :
      Undoes bytes (⟨.nextByte, answer, c.position, q⟩ :: history) none :=
    .none_of_read (by simp [Exchange.TookRune]) (by simp [Exchange.Idle])
  cases hr : c.rest with
  | nil =>
    have hask : Input.ask c .nextByte = (.ok (.byte none), { c with undo := none }) := by
      simp [Input.ask, Input.nextByte, nextByte_of_isEmpty hr, Except.map]
    rw [hr] at hmarks
    exact h.answered hask (.noByte hmarks.atEnd rfl) h.marks hundo
  | cons b rest =>
    have hask : Input.ask c .nextByte =
        (.ok (.byte (some b)), { rest, position := c.position.afterByte b, undo := none }) := by
      simp [Input.ask, Input.nextByte, Cursor.nextByte, hr, Except.map]
    rw [hr] at hmarks
    have hoffset := Position.offset_afterByte c.position b
    refine h.answered hask (.byte hmarks.getElem? hoffset) ?_ hundo
    exact hmarks.advance [b] hoffset (Position.line_afterByte _ _)

/-- Looking at a byte leaves the cursor and what it can put back as they are. -/
theorem Heard.peekByte (h : Heard bytes history c) :
    Heard bytes (Input.exchange c .peekByte :: history) (Input.ask c .peekByte).2 := by
  have hask : Input.ask c .peekByte = (.ok (.byte bytes[c.position.offset]?), c) := by
    rw [h.marks.getElem?]
    rfl
  exact h.answered hask (.shown rfl) h.marks (h.undo.idle (.inl rfl))

/-- Putting a character back leads to where it was read, and a second time nowhere. -/
theorem Heard.unreadRune (h : Heard bytes history c) :
    Heard bytes (Input.exchange c .unreadRune :: history) (Input.ask c .unreadRune).2 := by
  have hundo := h.undo
  have hnone {answer : Except ReadError Answer} {q : Position} :
      Undoes bytes (⟨.unreadRune, answer, c.position, q⟩ :: history) none :=
    .none_of_read (by simp [Exchange.TookRune]) (by simp [Exchange.Idle])
  cases hu : c.undo with
  | none =>
    have hask : Input.ask c .unreadRune = (.ok (.flag false), c) := by
      simp [Input.ask, Input.unreadRune, Cursor.unreadRune, hu]
    rw [hu] at hundo
    exact h.answered hask (.notReturned hundo rfl) h.marks (hu ▸ hnone)
  | some before =>
    obtain ⟨rest, position⟩ := before
    have hask : Input.ask c .unreadRune = (.ok (.flag true), { rest, position, undo := none }) := by
      simp [Input.ask, Input.unreadRune, Cursor.unreadRune, hu]
    rw [hu] at hundo
    obtain ⟨hmarks, x, hx, rfl⟩ := hundo
    exact h.answered hask (.returned hx rfl) hmarks hnone

/-- Where a skipped line ends. -/
structure Skips (bytes : List UInt8) (c c' : Cursor) : Prop where
  marks : c'.position.Marks bytes c'.rest
  onward : c.position.offset ≤ c'.position.offset
  clear : ∀ i, c.position.offset ≤ i → i < c'.position.offset → bytes[i]? ≠ some 0x0A
  undo : c'.undo = if c'.position.offset = c.position.offset then c.undo else none

/-- No bytes need to be skipped. -/
theorem Skips.refl (h : c.position.Marks bytes c.rest) : Skips bytes c c where
  marks := h
  onward := Nat.le_refl _
  clear i hle hlt := absurd hlt (Nat.not_lt.mpr hle)
  undo := by simp

/-- A byte that is not the newline is skipped first. -/
theorem Skips.cons {b : UInt8} {rest : List UInt8} (h : c.position.Marks bytes (b :: rest))
    (hb : b ≠ 0x0A)
    (hskips : Skips bytes { rest, position := c.position.afterByte b, undo := none } c') :
    Skips bytes c c' := by
  have honward := hskips.onward
  have hclear := hskips.clear
  have hundo := hskips.undo
  simp only [Position.offset_afterByte] at honward hclear
  refine ⟨hskips.marks, by omega, fun i hle hlt => ?_, ?_⟩
  · rcases Nat.eq_or_lt_of_le hle with rfl | hle
    · rw [h.getElem?]
      simpa using hb
    · exact hclear i hle hlt
  · rw [hundo, if_neg (by omega : c'.position.offset ≠ c.position.offset)]
    split <;> rfl

/-- A line is skipped up to the next newline, or to the end of the bytes. -/
theorem skipToNewline_skips (h : c.position.Marks bytes c.rest) :
    ∃ c', Input.skipToNewline c = (.ok c'.rest.head?.isSome, c') ∧ Skips bytes c c' ∧
      (c'.rest.head? = none ∨ c'.rest.head? = some 0x0A) := by
  induction hr : c.rest generalizing c with
  | nil =>
    refine ⟨c, ?_, .refl h, .inl (by simp [hr])⟩
    rw [Correspondence.skipToNewline_eq]
    simp [Input.peekByte, hr]
  | cons b rest ih =>
    rw [Correspondence.skipToNewline_eq]
    by_cases hb : b = 0x0A
    · refine ⟨c, ?_, .refl h, .inr (by simp [hr, hb])⟩
      simp [Input.peekByte, hr, hb]
    · rw [hr] at h
      let c₁ : Cursor := { rest, position := c.position.afterByte b, undo := none }
      have hmarks : c₁.position.Marks bytes c₁.rest :=
        h.advance [b] (Position.offset_afterByte _ _) (Position.line_afterByte _ _)
      obtain ⟨c', hs, hskips, hhead⟩ := ih hmarks rfl
      refine ⟨c', ?_, hskips.cons h hb, hhead⟩
      rw [← hs]
      simp [Input.peekByte, Input.nextByte, Cursor.nextByte, hr, hb, c₁]

/-- Skipping a line goes on with the conversation, and forgets the character before. -/
theorem Heard.skipToNewline (h : Heard bytes history c) :
    Heard bytes (Input.exchange c .skipToNewline :: history) (Input.ask c .skipToNewline).2 := by
  obtain ⟨c', hs, hskips, hhead⟩ := skipToNewline_skips h.marks
  have hask : Input.ask c .skipToNewline = (.ok (.flag c'.rest.head?.isSome), c') := by
    simp [Input.ask, hs, Except.map]
  have hundo {answer : Except ReadError Answer} :
      Undoes bytes (⟨.skipToNewline, answer, c.position, c'.position⟩ :: history) c'.undo := by
    rw [hskips.undo]
    -- skipping nothing leaves what can be put back; skipping a byte is a read
    split
    · rename_i hstays
      exact h.undo.idle (.inr ⟨rfl, hstays⟩)
    · rename_i hmoves
      exact .none_of_read (by simp [Exchange.TookRune]) (by simpa [Exchange.Idle] using hmoves)
  refine h.answered hask ?_ hskips.marks hundo
  have hmarks := hskips.marks
  rcases hhead with hhead | hhead
  · rw [hhead]
    rw [List.head?_eq_none_iff.mp hhead] at hmarks
    exact .ended hskips.onward hmarks.atEnd hskips.clear
  · rw [hhead]
    exact .skipped hskips.onward (hmarks.getElem?.trans hhead) hskips.clear

/-- Every answer of a cursor is right. -/
theorem Heard.ask (h : Heard bytes history c) (request : Request) :
    Heard bytes (Input.exchange c request :: history) (Input.ask c request).2 := by
  cases request with
  | nextRune => exact h.nextRune
  | nextByte => exact h.nextByte
  | peekByte => exact h.peekByte
  | unreadRune => exact h.unreadRune
  | skipToNewline => exact h.skipToNewline

/-- Any requests go on with the conversation. -/
theorem Heard.converse (h : Heard bytes history c) (requests : List Request) :
    Heard bytes (Input.converse history c requests).1 (Input.converse history c requests).2 := by
  induction requests generalizing history c with
  | nil => exact h
  | cons request requests ih => exact ih (h.ask request)

end Cursor

/-! ## Conversations with a scanner -/

namespace Scanner

variable {s : Scanner} {c : Cursor}

/-- A steady scanner answers as the cursor that it follows, and goes on following it. -/
theorem Follows.ask (h : s.Follows c) (request : Request) :
    (Input.ask s request).1 = (Input.ask c request).1 ∧
      (Input.ask s request).2.Follows (Input.ask c request).2 := by
  cases request with
  | nextRune =>
    obtain ⟨s', hs, h'⟩ := h.nextRune
    simpa [Input.ask, Input.nextRune, hs] using h'
  | nextByte =>
    obtain ⟨s', hs, h'⟩ := h.nextByte
    simpa [Input.ask, Input.nextByte, hs] using h'
  | peekByte =>
    obtain ⟨s', hs, h'⟩ := h.peekByte
    simpa [Input.ask, Input.peekByte, hs] using h'
  | unreadRune =>
    obtain ⟨hs, h'⟩ := h.unreadRune
    exact ⟨congrArg (fun yes => Except.ok (Answer.flag yes)) hs, h'⟩
  | skipToNewline =>
    rcases Correspondence.Sim.tally_skipToNewline (K := .ofReader "") h with ⟨hs, h'⟩ | ⟨-, h'⟩
    · exact ⟨congrArg (Except.map Answer.flag) hs.symm, h'⟩
    · exact h'.elim

/-- A scanner that follows a cursor has the same conversations. -/
theorem Follows.converse (h : s.Follows c) (history : List Exchange) (requests : List Request) :
    (Input.converse history s requests).1 = (Input.converse history c requests).1 ∧
      (Input.converse history s requests).2.Follows (Input.converse history c requests).2 := by
  induction requests generalizing s c history with
  | nil => exact ⟨rfl, h⟩
  | cons request requests ih =>
    obtain ⟨hanswer, hfollows⟩ := h.ask request
    have hexchange : Input.exchange s request = Input.exchange c request :=
      Input.exchange_congr hanswer h.position hfollows.position
    rw [Input.converse, Input.converse, hexchange]
    exact ih hfollows _

/-- Every conversation with a scanner on a stream that does not fail is one that the bytes call for, and
what is left unread is what stands behind the position that was reached. -/
theorem conversation_of_converse (bytes : List UInt8) {chunk : Option Nat} (h : chunk ≠ some 0)
    (requests : List Request) :
    let (history, s) := Input.converse [] (ofReader { unread := bytes, chunk }) requests
    history.map Exchange.request = requests.reverse ∧ Conversation bytes s.position history ∧
      s.unread = bytes.drop s.position.offset := by
  have hfollows : (ofReader { unread := bytes, chunk }).Follows (.ofBytes bytes) :=
    ⟨⟨rfl, h⟩, rfl, rfl, rfl⟩
  obtain ⟨hhistory, hlast⟩ := hfollows.converse [] requests
  have hheard := (Cursor.Heard.start bytes).converse requests
  refine ⟨by simpa using Input.requests_converse [] _ requests, ?_, ?_⟩
  · rw [hhistory, hlast.position]
    exact hheard.conversation
  · rw [hlast.unread, hlast.position, hheard.marks.drop_offset]

/-- From a stream that shows one byte at a time, a character of two bytes is read and put back after a
look ahead. Then its first byte is read and the line is skipped, and nothing can be put back. -/
theorem conversation_of_converse_bytewise : ∃ (requests : List Request) (history : List Exchange)
    (s : Scanner), some 1 ≠ some 0 ∧
      requests = [.nextRune, .peekByte, .unreadRune, .nextByte, .skipToNewline, .unreadRune] ∧
      Input.converse [] (ofReader { unread := [0xC3, 0xA9, 0x0A], chunk := some 1 }) requests =
        (history, s) ∧
      history.reverse.map (·.answer.toOption) = [some (.rune (some 'é')), some (.byte (some 0x0A)),
        some (.flag true), some (.byte (some 0xC3)), some (.flag true), some (.flag false)] ∧
      history.reverse.map (·.after.offset) = [2, 2, 0, 1, 2, 2] ∧
      Conversation [0xC3, 0xA9, 0x0A] s.position history := by
  have hchunk : some 1 ≠ some 0 := by decide
  have h := conversation_of_converse [0xC3, 0xA9, 0x0A] hchunk
    [.nextRune, .peekByte, .unreadRune, .nextByte, .skipToNewline, .unreadRune]
  exact ⟨_, _, _, hchunk, rfl, rfl, by decide +kernel, by decide +kernel, h.2.1⟩

end Scanner

end ShellScript
