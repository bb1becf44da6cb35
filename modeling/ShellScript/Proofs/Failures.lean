import Mathlib.Control.Monad.Basic
import ShellScript.Proofs.Disturbances

/-!
# Reads that fail

A read that fails leaves the position of a scanner, and most of them take nothing. Only a character whose
first bytes could be read, and a later one not, is lost as far as it was read (`failing_reads`): its first
byte no longer waits at the position where the scanner stands. Of a stream where that does not happen, the
reads that succeed deliver what they deliver without the failures.
-/

namespace ShellScript

/-- Whether a request takes or shows what comes next. -/
def Request.onward : Request → Bool
  | .nextRune | .nextByte | .peekByte => true
  | .unreadRune | .skipToNewline => false

/-- Whether a request was answered. -/
def Exchange.answered (x : Exchange) : Bool := x.answer.isOk

/-- Whether bytes are the first ones of a character, but not all. -/
def Utf8.Broken (bytes : List UInt8) : Prop :=
  ∃ lead tail, bytes = lead :: tail ∧ (∀ b ∈ tail, isContinuation b) ∧ bytes.length < width lead

/-! ## What a failed read takes -/

namespace Scanner

variable {s s' : Scanner} {e : ReadError}

/-- A byte that cannot be read is not taken. -/
theorem rawByte_error (h : s.reader.chunk ≠ some 0) (hs : s.rawByte = (.error e, s')) :
    s'.position = s.position ∧ s'.unread = s.unread := by
  unfold rawByte at hs
  split at hs
  · cases hs
  · split at hs
    · cases hs
    · rename_i hr
      cases hs
      have hreader := congrArg Reader.unread (Reader.calm_of_takeByte_error h hr)
      exact ⟨rfl, congrArg (s.pushedBack ++ ·) hreader⟩

/-- A byte that is read is the first one that is unread. -/
theorem unread_of_rawByte (h : s.reader.chunk ≠ some 0) {b : UInt8}
    (hs : s.rawByte = (.ok (some b), s')) : s.unread = b :: s'.unread ∧ s'.position = s.position := by
  obtain ⟨t, hread, hleaves⟩ := rawByte_of_steady s.steady_calm
  rw [Dependable.rawByte.calm h hs] at hread
  obtain ⟨hhead, rfl⟩ := Prod.mk.inj hread
  obtain ⟨rest, hunread⟩ := List.head?_eq_some_iff.mp (Except.ok.inj hhead).symm
  have htail : s'.unread = s.calm.unread.tail := hleaves.unread
  rw [hunread] at htail
  exact ⟨by rw [htail]; exact hunread, hleaves.position⟩

/-- A tail that cannot be read to its end is taken up to there. -/
theorem unread_of_rawTail_error {n : Nat} (h : s.reader.chunk ≠ some 0)
    (hs : s.rawTail n = (.error e, s')) :
    s'.position = s.position ∧ ∃ tail, s.unread = tail ++ s'.unread ∧
      (∀ b ∈ tail, Utf8.isContinuation b) ∧ tail.length < n := by
  -- on the bytes that are still wanted; those in front of the failure continue the character
  induction n generalizing s with
  | zero => cases hs
  | succ n ih =>
    have hb := Dependable.rawByte.met h
    unfold rawTail at hs
    rcases hr : s.rawByte with ⟨_ | _ | b, s₁⟩ <;> rw [hr] at hs hb <;> dsimp only at hs hb
    · cases hs
      obtain ⟨hposition, hunread⟩ := rawByte_error h hr
      exact ⟨hposition, [], hunread.symm, by simp, n.succ_pos⟩
    · cases hs
    · obtain ⟨hunread, hposition⟩ := unread_of_rawByte h hr
      split at hs
      · rename_i hcontinuation
        rcases htail : s₁.rawTail n with ⟨_ | _, s₂⟩ <;> rw [htail] at hs <;> cases hs
        obtain ⟨hposition', tail, htaken, hall, hlength⟩ := ih (hb.chunk ▸ h) htail
        refine ⟨hposition'.trans hposition, b :: tail, by rw [hunread, htaken]; rfl, ?_, ?_⟩
        · exact List.forall_mem_cons.mpr ⟨hcontinuation, hall⟩
        · exact Nat.succ_lt_succ hlength
      · cases hs

/-- Where a character cannot be read, the next byte cannot be shown either and nothing is taken, or the
character is broken. -/
theorem nextRune_error (h : s.reader.chunk ≠ some 0) (hs : s.nextRune = (.error e, s')) :
    s'.position = s.position ∧ ((∃ e, s.peekByte.1 = .error e) ∧ s'.unread = s.unread ∨
      (∃ b, s.peekByte.1 = .ok b) ∧ ∃ lost, Utf8.Broken lost ∧ s.unread = lost ++ s'.unread) := by
  have hb := Dependable.rawByte.met h
  unfold nextRune at hs
  unfold peekByte
  rcases hr : s.rawByte with ⟨_ | _ | lead, s₁⟩ <;> rw [hr] at hs hb <;> dsimp only at hs hb ⊢
  · cases hs
    exact (rawByte_error h hr).imp_right fun hunread => .inl ⟨⟨_, rfl⟩, hunread⟩
  · cases hs
  · -- the lead was taken, so it could have been shown; the failure is behind it
    obtain ⟨hunread, hposition⟩ := unread_of_rawByte h hr
    rcases htail : s₁.rawTail (Utf8.width lead - 1) with ⟨_ | tail, s₂⟩ <;> rw [htail] at hs <;>
      dsimp only at hs
    · cases hs
      obtain ⟨hposition', tail, htaken, hall, hlength⟩ := unread_of_rawTail_error (hb.chunk ▸ h) htail
      refine ⟨hposition'.trans hposition, .inr ⟨⟨_, rfl⟩, lead :: tail, ⟨lead, tail, rfl, hall, ?_⟩, ?_⟩⟩
      · exact Nat.add_lt_of_lt_sub hlength
      · rw [hunread, htaken]
        rfl
    · split at hs <;> cases hs

/-- A byte that cannot be read is still unread. -/
theorem nextByte_error (h : s.reader.chunk ≠ some 0) (hs : s.nextByte = (.error e, s')) :
    s'.position = s.position ∧ s'.unread = s.unread := by
  have herror := @rawByte_error { s with latest := none }
  unfold nextByte at hs
  rcases hr : ({ s with latest := none } : Scanner).rawByte with ⟨_ | _ | b, s₁⟩ <;>
    rw [hr] at hs <;> cases hs
  exact herror h hr

/-- So is a byte that cannot be shown. -/
theorem peekByte_error (h : s.reader.chunk ≠ some 0) (hs : s.peekByte = (.error e, s')) :
    s'.position = s.position ∧ s'.unread = s.unread := by
  unfold peekByte at hs
  rcases hr : s.rawByte with ⟨_ | _ | b, s₁⟩ <;> rw [hr] at hs <;> cases hs
  exact rawByte_error h hr

end Scanner

/-! ## Requests -/

section

variable {ε σ α β : Type} {f : α → β} {x : Except ε α × σ} {s' : σ}

/-- An answer in another form fails where the answer does. -/
theorem eq_error_of_map {e : ε} (h : (x.1.map f, x.2) = (.error e, s')) : x = (.error e, s') := by
  rcases x with ⟨_ | _, _⟩ <;> cases h
  rfl

/-- An answer in another form is there where the answer is. -/
theorem eq_ok_of_map {b : β} (h : (x.1.map f, x.2) = (.ok b, s')) :
    ∃ a, f a = b ∧ x = (.ok a, s') := by
  rcases x with ⟨_ | a, _⟩ <;> cases h
  exact ⟨a, rfl, rfl⟩

end

namespace Scanner

variable {s s' t : Scanner} {request : Request}

/-- Putting the answer in another form leaves a read dependable. -/
theorem Dependable.map {α β : Type} {read : Scanner → Except ReadError α × Scanner} (h : Dependable read)
    (f : α → β) : Dependable fun s => ((read s).1.map f, (read s).2) where
  met {s} hs := by
    have hmet := h.met hs
    rcases hr : read s with ⟨e | a, s₁⟩ <;> rw [hr] at hmet
    · exact hmet.failed e
    · exact hmet.answered (f a)
  calm {s s' b} hs hread := by
    obtain ⟨a, rfl, hok⟩ := eq_ok_of_map hread
    rw [h.calm hs hok]
    rfl

/-- Every request for what comes next is dependable. -/
theorem dependable_ask (hr : request.onward) : Dependable fun s => Input.ask s request := by
  cases request with
  | nextRune => exact Dependable.nextRune.map Answer.rune
  | nextByte => exact Dependable.nextByte.map Answer.byte
  | peekByte => exact Dependable.peekByte.map Answer.byte
  | unreadRune => cases hr
  | skipToNewline => cases hr

/-- A request that fails leaves the position, and what is unread unless it breaks a character. -/
theorem ask_error {e : ReadError} (h : s.reader.chunk ≠ some 0) (hr : request.onward)
    (hs : Input.ask s request = (.error e, s')) :
    s'.position = s.position ∧
      if request = .nextRune ∧ s.peekByte.1.isOk then
        ∃ lost, Utf8.Broken lost ∧ s.unread = lost ++ s'.unread
      else s'.unread = s.unread := by
  cases request with
  | nextRune =>
    refine (nextRune_error h (eq_error_of_map hs)).imp_right fun hcases => ?_
    rcases hcases with ⟨⟨e, he⟩, hunread⟩ | ⟨⟨b, hb⟩, hlost⟩
    · rw [if_neg (by simp [he, Except.isOk, Except.toBool])]
      exact hunread
    · rw [if_pos (by simp [hb, Except.isOk, Except.toBool])]
      exact hlost
  | nextByte => exact nextByte_error h (eq_error_of_map hs)
  | peekByte => exact peekByte_error h (eq_error_of_map hs)
  | unreadRune => cases hr
  | skipToNewline => cases hr

end Scanner

namespace Cursor

variable {c d : Cursor} {request : Request}

/-- What a cursor goes back to changes nothing for a request that takes or shows what comes next. -/
theorem ask_congr (hrest : d.rest = c.rest) (hposition : d.position = c.position) (hr : request.onward) :
    (Input.ask d request).1 = (Input.ask c request).1 ∧
      (Input.ask d request).2.rest = (Input.ask c request).2.rest ∧
      (Input.ask d request).2.position = (Input.ask c request).2.position := by
  obtain ⟨rest, position, undo⟩ := c
  obtain ⟨_, _, undo'⟩ := d
  cases hrest
  cases hposition
  cases request with
  | nextRune => cases rest <;> exact ⟨rfl, rfl, rfl⟩
  | nextByte => cases rest <;> exact ⟨rfl, rfl, rfl⟩
  | peekByte => exact ⟨rfl, rfl, rfl⟩
  | unreadRune => cases hr
  | skipToNewline => cases hr

end Cursor

namespace Scanner

/-- Scanners at the same point, the second one on a stream that does not fail. -/
structure Level (s t : Scanner) : Prop where
  chunk : s.reader.chunk ≠ some 0
  steady : t.reader.Steady
  unread : t.unread = s.unread
  position : t.position = s.position

namespace Level

variable {s s' t : Scanner} {request : Request}

/-- A request that is answered is answered the same on the right. -/
theorem answered (h : Level s t) (hr : request.onward) {answer : Answer}
    (hs : Input.ask s request = (.ok answer, s')) :
    Input.exchange t request = Input.exchange s request ∧ Level s' (Input.ask t request).2 := by
  -- through the calm stream, and the cursors on it and on the right
  have hdependable := dependable_ask hr
  have hmet := hdependable.met h.chunk
  have hcalm := hdependable.calm h.chunk hs
  obtain ⟨hleft, hleft'⟩ := (follows_cursor s.steady_calm).ask request
  obtain ⟨hright, hright'⟩ := (follows_cursor h.steady).ask request
  rw [hcalm] at hleft hleft'
  obtain ⟨hanswer, hrest, hposition⟩ := Cursor.ask_congr (c := s.calm.cursor) (d := t.cursor)
    h.unread h.position hr
  have hlevel : Level s' (Input.ask t request).2 :=
    { chunk := by
        rw [hs] at hmet
        exact hmet.chunk ▸ h.chunk
      steady := hright'.steady
      unread := hright'.unread.trans (hrest.trans hleft'.unread.symm)
      position := hright'.position.trans (hposition.trans hleft'.position.symm) }
  refine ⟨Input.exchange_congr ?_ h.position ?_, hlevel⟩
  · rw [hs, hright, hanswer, ← hleft]
  · rw [hs]
    exact hlevel.position

/-- A request that fails and breaks no character leaves both where they are. -/
theorem failed (h : Level s t) (hr : request.onward) {e : ReadError}
    (hs : Input.ask s request = (.error e, s'))
    (hwhole : ¬(request = .nextRune ∧ s.peekByte.1.isOk)) : Level s' t := by
  have hmet := (dependable_ask hr).met h.chunk
  obtain ⟨hposition, hunread⟩ := ask_error h.chunk hr hs
  rw [if_neg hwhole] at hunread
  rw [hs] at hmet
  exact ⟨hmet.chunk ▸ h.chunk, h.steady, h.unread.trans hunread.symm, h.position.trans hposition.symm⟩

end Level

/-! ## Conversations -/

/-- Whether no request of a conversation breaks a character: where the next byte can be shown, a character
can be read. -/
def Unbroken (s : Scanner) : List Request → Prop
  | [] => True
  | request :: requests =>
    (request = .nextRune ∧ s.peekByte.1.isOk → (Input.ask s request).1.isOk) ∧
      Unbroken (Input.ask s request).2 requests

/-- Whether the requests of a conversation that are answered have the answers, at the positions, that the
same requests have on the calm stream, and leave the same behind. -/
def Delivers (s : Scanner) (requests : List Request) : Prop :=
  let (history, s') := Input.converse [] s requests
  let answered := history.filter Exchange.answered
  let (calm, t) := Input.converse [] s.calm (answered.reverse.map Exchange.request)
  calm = answered ∧ t.unread = s'.unread ∧ t.position = s'.position

variable {s t : Scanner} {requests : List Request}

/-- Scanners at the same point still are after a conversation of which the right one hears what was
answered on the left. -/
theorem Level.converse (h : Level s t) (hr : ∀ request ∈ requests, request.onward)
    (hwhole : s.Unbroken requests) :
    let (history, s') := Input.converse [] s requests
    let answered := history.filter Exchange.answered
    let (calm, t') := Input.converse [] t (answered.reverse.map Exchange.request)
    calm = answered ∧ Level s' t' := by
  -- along the requests: one that fails is left out on the right and keeps the scanners level
  induction requests generalizing s t with
  | nil => exact ⟨rfl, h⟩
  | cons request requests ih =>
    obtain ⟨hfirst, hrest⟩ := List.forall_mem_cons.mp hr
    obtain ⟨hbreak, hwhole⟩ := hwhole
    rw [Input.converse_cons]
    rcases hask : Input.ask s request with ⟨e | answer, s₁⟩ <;> rw [hask] at hbreak hwhole
    · have hlevel := h.failed hfirst hask fun hrune => by cases hbreak hrune
      have hnone : [Input.exchange s request].filter Exchange.answered = [] := by
        rw [Input.exchange, hask]
        rfl
      simpa only [List.filter_append, hnone, List.append_nil] using ih hlevel hrest hwhole
    · obtain ⟨hexchange, hlevel⟩ := h.answered hfirst hask
      obtain ⟨hcalm, hlast⟩ := ih hlevel hrest hwhole
      have hone : [Input.exchange s request].filter Exchange.answered = [Input.exchange s request] := by
        rw [Input.exchange, hask]
        rfl
      simp only [List.filter_append, hone, List.reverse_append, List.reverse_singleton,
        List.singleton_append, List.map_cons]
      rw [show (Input.exchange s request).request = request from rfl, Input.converse_cons, hexchange]
      exact ⟨by rw [hcalm], hlast⟩

/-- Requests do not change how much of a stream is shown at a time. -/
theorem chunk_converse (history : List Exchange) (s : Scanner)
    (hr : ∀ request ∈ requests, request.onward) (h : s.reader.chunk ≠ some 0) :
    (Input.converse history s requests).2.reader.chunk ≠ some 0 := by
  induction requests generalizing history s with
  | nil => exact h
  | cons request requests ih =>
    obtain ⟨hfirst, hrest⟩ := List.forall_mem_cons.mp hr
    exact ih _ _ hrest (((dependable_ask hfirst).met h).chunk ▸ h)

/-- After any requests for characters, bytes and looks ahead, of which some may have failed: a request that
fails leaves the position. It leaves what is unread too, unless it is for a character of which the next byte
can be shown. Then the bytes up to the failure are gone, a part of a character and not all of it. Requests
that break no character deliver, where they are answered, what they deliver on the calm stream. -/
theorem failing_reads (bytes : List UInt8) {chunk : Option Nat} (hchunk : chunk ≠ some 0)
    (faults : List Fault) {earlier requests : List Request} (hearlier : ∀ r ∈ earlier, r.onward)
    (hrequests : ∀ r ∈ requests, r.onward) :
    let s := (Input.converse [] (ofReader { unread := bytes, chunk, faults }) earlier).2
    (∀ request e s', request.onward → Input.ask s request = (.error e, s') →
      s'.position = s.position ∧
        if request = .nextRune ∧ s.peekByte.1.isOk then
          ∃ lost, Utf8.Broken lost ∧ s.unread = lost ++ s'.unread
        else s'.unread = s.unread) ∧
      (s.Unbroken requests → s.Delivers requests) := by
  intro s
  have hs : s.reader.chunk ≠ some 0 := chunk_converse [] _ hearlier hchunk
  refine ⟨fun request e s' hr hask => ask_error hs hr hask, fun hwhole => ?_⟩
  have hlevel : Level s s.calm := ⟨hs, s.steady_calm, rfl, rfl⟩
  obtain ⟨hanswers, hlast⟩ := hlevel.converse hrequests hwhole
  exact ⟨hanswers, hlast.unread, hlast.position⟩

/-- The stream of `é` fails before each of its bytes. Behind the first failure a request for the character
loses its first byte. If the first byte is taken by itself, nothing is lost. -/
theorem failing_reads_twice :
    let faults : List Fault := [⟨0, .failure "f" false⟩, ⟨1, .failure "f" false⟩]
    let s := (Input.converse [] (ofReader { unread := [0xC3, 0xA9], chunk := some 1, faults }) [.nextByte]).2
    let requests : List Request := [.peekByte, .nextByte, .nextRune, .nextRune]
    some 1 ≠ some 0 ∧ (∀ r ∈ [Request.nextByte], r.onward) ∧ (∀ r ∈ requests, r.onward) ∧
      (∃ e s', Input.ask s .nextRune = (.error e, s') ∧ s'.position = s.position ∧ s'.unread = [0xA9] ∧
        ∃ lost, Utf8.Broken lost ∧ s.unread = lost ++ s'.unread) ∧
      s.Unbroken requests ∧ s.Delivers requests := by
  intro faults s requests
  have hchunk : some 1 ≠ some 0 := by decide
  have hearlier : ∀ r ∈ [Request.nextByte], r.onward := by decide
  have hrequests : ∀ r ∈ requests, r.onward := by decide
  obtain ⟨hfails, hdelivers⟩ := failing_reads [0xC3, 0xA9] hchunk faults hearlier hrequests
  have hanswer : (Input.ask s .nextRune).1 = .error ⟨"f"⟩ := by decide +kernel
  have hask : Input.ask s .nextRune = (.error ⟨"f"⟩, (Input.ask s .nextRune).2) := Prod.ext hanswer rfl
  have hshown : Request.nextRune = .nextRune ∧ s.peekByte.1.isOk := ⟨rfl, by decide +kernel⟩
  obtain ⟨hposition, hlost⟩ := hfails _ _ _ rfl hask
  rw [if_pos hshown] at hlost
  have hwhole : s.Unbroken requests :=
    ⟨by decide +kernel, by decide +kernel, by decide +kernel, by decide +kernel, trivial⟩
  exact ⟨hchunk, hearlier, hrequests, ⟨_, _, hask, hposition, by decide +kernel, hlost⟩, hwhole,
    hdelivers hwhole⟩

/-- A failure within `é` leaves one byte of two, so a failed request does not always leave what is unread. -/
theorem not_unread_of_failure : ¬∀ (bytes : List UInt8) (faults : List Fault) (requests : List Request),
    (∀ fault ∈ faults, ∃ message, fault.kind = .failure message false) →
    (∀ r ∈ requests, r.onward) →
    let s := ofReader { unread := bytes, faults }
    (∀ before after request, requests = before ++ request :: after →
      let s₁ := (Input.converse [] s before).2
      ∀ e s₂, Input.ask s₁ request = (.error e, s₂) →
        s₂.position = s₁.position ∧ s₂.unread = s₁.unread) ∧ s.Delivers requests := by
  intro h
  let faults : List Fault := [⟨1, .failure "f" false⟩]
  let s := ofReader { unread := [0xC3, 0xA9], faults }
  have hanswer : (Input.ask s .nextRune).1 = .error ⟨"f"⟩ := by decide +kernel
  have hask : Input.ask s .nextRune = (.error ⟨"f"⟩, (Input.ask s .nextRune).2) := Prod.ext hanswer rfl
  have hunread : (Input.ask s .nextRune).2.unread ≠ s.unread := by decide +kernel
  obtain ⟨hfails, -⟩ := h [0xC3, 0xA9] faults [.nextRune] (by simp [faults]) (by decide)
  exact hunread (hfails [] [] .nextRune rfl _ _ hask).2

end Scanner

end ShellScript
