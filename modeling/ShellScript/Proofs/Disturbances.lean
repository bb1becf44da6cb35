import ShellScript.Proofs.Conversations

/-!
# Disturbed streams

A stream may show a few bytes at a time, and a request for more may be interrupted or fail. The `calm`
stream holds the same bytes, in one piece and without faults. Where a read of a disturbed stream answers,
it answers as on the calm stream and leaves the same behind (`Dependable`). Interruptions alone never make
a read fail (`Met.ok_of_patient`).
-/

namespace ShellScript

/-! ## Faults that are met -/

namespace Reader

/-- The same bytes in one piece, and no faults. -/
def calm (r : Reader) : Reader := { r with chunk := none, faults := [] }

/-- What a read makes of a reader: its windows are as large as before, and some of its faults were met. A
read that failed met one that is no interruption. -/
structure Met {ε α : Type} (r : Reader) (answer : Except ε α) (r' : Reader) : Prop where
  chunk : r'.chunk = r.chunk
  faults : r'.faults <:+ r.faults
  failure : ∀ e, answer = .error e → ∃ fault ∈ r.faults, fault.kind ≠ .interruption

/-- A stream on which requests are interrupted at times, but never fail. -/
structure Patient (r : Reader) : Prop where
  chunk : r.chunk ≠ some 0
  faults : ∀ fault ∈ r.faults, fault.kind = .interruption

variable {ε ε' α β : Type} {r r' r'' : Reader} {answer : Except ε α} {answer' : Except ε' β}

namespace Met

/-- An answer that asked for nothing met no fault. -/
theorem ok (r : Reader) (a : α) : r.Met (.ok a : Except ε α) r :=
  ⟨rfl, List.suffix_refl _, fun _ he => by cases he⟩

/-- One read after another: only what the second one answers counts. -/
theorem trans (h : r.Met answer r') (h' : r'.Met answer' r'') : r.Met answer' r'' where
  chunk := h'.chunk.trans h.chunk
  faults := h'.faults.trans h.faults
  failure e he :=
    let ⟨fault, hfault, hkind⟩ := h'.failure e he
    ⟨fault, h.faults.subset hfault, hkind⟩

/-- Something is answered after a read. -/
theorem answered (h : r.Met answer r') (b : β) : r.Met (.ok b : Except ε' β) r' :=
  h.trans (.ok r' b)

/-- An error is passed on. -/
theorem failed {e : ε} (h : r.Met (.error e : Except ε α) r') (e' : ε') :
    r.Met (.error e' : Except ε' β) r' :=
  ⟨h.chunk, h.faults, fun _ _ => h.failure e rfl⟩

/-- Interruptions do not make a read fail, and nothing else comes after them. -/
theorem ok_of_patient (h : r.Met answer r') (hr : r.Patient) : r'.Patient ∧ ∃ a, answer = .ok a := by
  refine ⟨⟨h.chunk ▸ hr.chunk, fun fault hfault => hr.faults fault (h.faults.subset hfault)⟩, ?_⟩
  cases answer with
  | ok a => exact ⟨a, rfl⟩
  | error e =>
    obtain ⟨fault, hfault, hkind⟩ := h.failure e rfl
    exact (hkind (hr.faults fault hfault)).elim

end Met

/-! ## Windows -/

/-- What a request for a window comes to. Where it shows bytes, no fault stands at the current offset. -/
theorem window_cases (r : Reader) :
    (∀ fault ∈ r.faults.head?, r.offset < fault.offset) ∧ r.window = (.ok r.visible, r) ∨
      ∃ fault ∈ r.faults, ∃ later, later <:+ r.faults ∧
        (fault.kind = .interruption ∧ r.window = (.error .interrupted, { r with faults := later }) ∨
          fault.kind ≠ .interruption ∧
            ∃ message, r.window = (.error (.failed message), { r with faults := later })) := by
  unfold window
  split
  · rename_i hnil
    exact .inl ⟨by simp [hnil], rfl⟩
  · rename_i fault later hcons
    have hmem : fault ∈ r.faults := by simp [hcons]
    have hlater : later <:+ r.faults := hcons ▸ List.suffix_cons fault later
    split
    · refine .inr ⟨fault, hmem, ?_⟩
      split
      · rename_i hkind
        exact ⟨later, hlater, .inl ⟨hkind, rfl⟩⟩
      · rename_i message hkind
        exact ⟨r.faults, List.suffix_refl _, .inr ⟨by simp [hkind], message, rfl⟩⟩
      · rename_i message hkind
        exact ⟨later, hlater, .inr ⟨by simp [hkind], message, rfl⟩⟩
    · rename_i hoffset
      exact .inl ⟨by simpa [hcons] using hoffset, rfl⟩

/-! ## Bytes of a reader -/

/-- A byte is the first of the window, if there is one. -/
theorem takeByte_eq (r : Reader) :
    r.takeByte = match r.window with
      | (.ok [], r') => (.ok none, r')
      | (.ok (b :: _), r') => (.ok (some b), r'.advance)
      | (.error .interrupted, r') => r'.takeByte
      | (.error (.failed message), r') => (.error message, r') := by
  rw [takeByte]
  split <;> simp_all

/-- What taking a byte comes to: the byte that comes next, or an error before it. -/
theorem takeByte_cases (h : r.chunk ≠ some 0) :
    ∃ later, later <:+ r.faults ∧
      ((r.takeByte = match r.unread with
          | [] => (.ok none, { r with faults := later })
          | b :: _ => (.ok (some b), { r with faults := later }.advance)) ∨
        (∃ fault ∈ r.faults, fault.kind ≠ .interruption) ∧
          ∃ message, r.takeByte = (.error message, { r with faults := later })) := by
  -- by induction on the faults to come, of which every interruption uses up some
  induction hn : r.faults.length using Nat.strongRecOn generalizing r with
  | ind n ih =>
    subst hn
    rcases r.window_cases with ⟨hfaults, hw⟩ | ⟨fault, hmem, later, hlater, ⟨hkind, hw⟩ | ⟨hkind, message, hw⟩⟩
    · refine ⟨r.faults, List.suffix_refl _, .inl ?_⟩
      have hhead := head?_visible h hfaults
      rw [takeByte_eq, hw]
      obtain ⟨unread, offset, chunk, faults⟩ := r
      cases unread with
      | nil =>
        rw [List.head?_eq_none_iff.mp hhead]
      | cons b rest =>
        obtain ⟨shown, hshown⟩ := List.head?_eq_some_iff.mp hhead
        rw [hshown]
    · have hlt := faults_lt_of_interrupted hw
      obtain ⟨last, hlast, hcases⟩ := @ih _ hlt { r with faults := later } h rfl
      refine ⟨last, hlast.trans hlater, ?_⟩
      rw [takeByte_eq, hw]
      exact hcases.imp id fun ⟨⟨fault, hmem, hkind⟩, herror⟩ =>
        ⟨⟨fault, hlater.subset hmem, hkind⟩, herror⟩
    · refine ⟨later, hlater, .inr ⟨⟨fault, hmem, hkind⟩, message, ?_⟩⟩
      rw [takeByte_eq, hw]

/-- Taking a byte may meet interruptions, and fails only at another fault. -/
theorem takeByte_met (h : r.chunk ≠ some 0) : r.Met r.takeByte.1 r.takeByte.2 := by
  obtain ⟨later, hlater, ht | ⟨hfault, message, ht⟩⟩ := takeByte_cases h
  · rw [ht]
    cases r.unread <;> exact ⟨rfl, hlater, fun _ he => by cases he⟩
  · rw [ht]
    exact ⟨rfl, hlater, fun _ _ => hfault⟩

/-- A byte that is taken is the one that is taken from the calm stream. -/
theorem takeByte_calm (h : r.chunk ≠ some 0) {b? : Option UInt8} (ht : r.takeByte = (.ok b?, r')) :
    r.calm.takeByte = (.ok b?, r'.calm) := by
  have hsteady : r.calm.Steady := ⟨rfl, nofun⟩
  obtain ⟨later, -, hcases | ⟨-, message, hcases⟩⟩ := takeByte_cases h
  · rw [hsteady.takeByte]
    obtain ⟨_ | ⟨b, rest⟩, offset, chunk, faults⟩ := r <;> cases hcases.symm.trans ht <;> rfl
  · cases hcases.symm.trans ht

/-- A failed request takes nothing. -/
theorem calm_of_takeByte_error (h : r.chunk ≠ some 0) {message : String}
    (ht : r.takeByte = (.error message, r')) : r'.calm = r.calm := by
  obtain ⟨later, -, hcases | ⟨-, _, hcases⟩⟩ := takeByte_cases h
  · obtain ⟨_ | ⟨b, rest⟩, offset, chunk, faults⟩ := r <;> cases hcases.symm.trans ht
  · cases hcases.symm.trans ht
    rfl

end Reader

/-! ## Reads of a scanner -/

namespace Scanner

/-- The same scanner on the calm stream. -/
def calm (s : Scanner) : Scanner := { s with reader := s.reader.calm }

/-- The calm stream is steady. -/
theorem steady_calm (s : Scanner) : s.calm.reader.Steady := ⟨rfl, nofun⟩

/-- Putting back is the same on the calm stream. -/
theorem unreadRune_calm (s : Scanner) : s.calm.unreadRune = (s.unreadRune.1, s.unreadRune.2.calm) := by
  obtain ⟨reader, position, pushedBack, _ | _⟩ := s <;> rfl

/-- Putting back does not reach the reader. -/
theorem reader_unreadRune (s : Scanner) : s.unreadRune.2.reader = s.reader := by
  obtain ⟨reader, position, pushedBack, _ | _⟩ := s <;> rfl

/-- A read that a disturbance can only make fail. Where it answers, it answers as on the calm stream, and
leaves the same behind. -/
structure Dependable {α : Type} (read : Scanner → Except ReadError α × Scanner) : Prop where
  met : ∀ {s : Scanner}, s.reader.chunk ≠ some 0 → s.reader.Met (read s).1 (read s).2.reader
  calm : ∀ {s s' : Scanner} {a : α}, s.reader.chunk ≠ some 0 → read s = (.ok a, s') →
    read s.calm = (.ok a, s'.calm)

namespace Dependable

variable {α β : Type} {read : Scanner → Except ReadError α × Scanner} {s s' : Scanner}

/-- A stream that is only interrupted answers, and as the calm one does. -/
theorem of_patient (h : Dependable read) (hs : s.reader.Patient) :
    (read s.calm).1 = (read s).1 ∧ (read s.calm).2 = (read s).2.calm ∧ (read s).2.reader.Patient := by
  obtain ⟨hpatient, a, ha⟩ := (h.met hs.chunk).ok_of_patient hs
  rw [h.calm hs.chunk (Prod.ext ha rfl)]
  exact ⟨ha.symm, rfl, hpatient⟩

/-- A single byte is read dependably, from what was put back or from the reader. -/
theorem rawByte : Dependable rawByte where
  met {s} hs := by
    have ht := Reader.takeByte_met hs
    unfold Scanner.rawByte
    split
    · exact .ok _ _
    · rcases htake : s.reader.takeByte with ⟨_ | _, reader⟩ <;> rw [htake] at ht
      · exact ht.failed _
      · exact ht.answered _
  calm {s s' b?} hs hread := by
    unfold Scanner.rawByte at hread ⊢
    rw [show s.calm.pushedBack = s.pushedBack from rfl]
    cases hp : s.pushedBack with
    | cons b rest =>
      rw [hp] at hread
      cases hread
      rfl
    | nil =>
      rw [hp] at hread
      dsimp only at hread ⊢
      rcases htake : s.reader.takeByte with ⟨_ | b?, reader⟩ <;> rw [htake] at hread <;> cases hread
      rw [show s.calm.reader = s.reader.calm from rfl, Reader.takeByte_calm hs htake]
      rfl

/-- So are the bytes behind the lead of a character. -/
theorem rawTail (n : Nat) : Dependable (rawTail n) where
  met {s} hs := by
    -- at most so many bytes; a fault among them fails the read, as does one behind them
    induction n generalizing s with
    | zero => exact .ok _ _
    | succ n ih =>
      have hb := rawByte.met hs
      unfold Scanner.rawTail
      rcases hr : s.rawByte with ⟨_ | _ | b, s₁⟩ <;> rw [hr] at hb <;> dsimp only at hb ⊢
      · exact hb.failed _
      · exact hb.answered _
      · split
        · have ht := hb.trans (ih (hb.chunk ▸ hs))
          rcases htail : s₁.rawTail n with ⟨_ | _, s₂⟩ <;> rw [htail] at ht
          · exact ht.failed _
          · exact ht.answered _
        · exact hb.answered _
  calm {s s' tail} hs hread := by
    -- each byte that was read is the same on the calm stream, and so the rest is
    induction n generalizing s s' tail with
    | zero =>
      cases hread
      rfl
    | succ n ih =>
      have hb := rawByte.met hs
      unfold Scanner.rawTail at hread ⊢
      rcases hr : s.rawByte with ⟨_ | _ | b, s₁⟩ <;> rw [hr] at hread hb <;> dsimp only at hread hb
      · cases hread
      · cases hread
        rw [rawByte.calm hs hr]
      · rw [rawByte.calm hs hr]
        dsimp only
        split at hread
        · rename_i hcontinuation
          rcases htail : s₁.rawTail n with ⟨_ | _, s₂⟩ <;> rw [htail] at hread <;> cases hread
          rw [if_pos hcontinuation, ih (hb.chunk ▸ hs) htail]
        · rename_i hcontinuation
          cases hread
          rw [if_neg hcontinuation]
          rfl

/-- So is a character, although the bytes of one that breaks off are put back. -/
theorem nextRune : Dependable nextRune where
  met {s} hs := by
    have hb := rawByte.met hs
    unfold Scanner.nextRune
    rcases hr : s.rawByte with ⟨_ | _ | lead, s₁⟩ <;> rw [hr] at hb <;> dsimp only at hb ⊢
    · exact hb.failed _
    · exact hb.answered _
    · have ht := hb.trans ((rawTail (Utf8.width lead - 1)).met (hb.chunk ▸ hs))
      rcases htail : s₁.rawTail (Utf8.width lead - 1) with ⟨_ | tail, s₂⟩ <;> rw [htail] at ht
      · exact ht.failed _
      · dsimp only
        -- whether the bytes make a character or are put back, nothing more is asked of the reader
        split <;> exact ht.answered _
  calm {s s' c?} hs hread := by
    have hb := rawByte.met hs
    unfold Scanner.nextRune at hread ⊢
    rcases hr : s.rawByte with ⟨_ | _ | lead, s₁⟩ <;> rw [hr] at hread hb <;> dsimp only at hread hb
    · cases hread
    · cases hread
      rw [rawByte.calm hs hr]
      rfl
    · rw [rawByte.calm hs hr]
      dsimp only
      rcases htail : s₁.rawTail (Utf8.width lead - 1) with ⟨_ | tail, s₂⟩ <;>
        rw [htail] at hread <;> dsimp only at hread
      · cases hread
      · rw [(rawTail _).calm (hb.chunk ▸ hs) htail]
        dsimp only
        split at hread <;> cases hread <;> rfl

/-- So is a byte with its position. -/
theorem nextByte : Dependable nextByte where
  met {s} hs := by
    have hb := rawByte.met (s := { s with latest := none }) hs
    unfold Scanner.nextByte
    rcases hr : ({ s with latest := none } : Scanner).rawByte with ⟨_ | _ | b, s₁⟩ <;> rw [hr] at hb
    · exact hb
    · exact hb
    · exact hb.answered _
  calm {s s' b?} hs hread := by
    have hcalm := @rawByte.calm { s with latest := none }
    unfold Scanner.nextByte at hread ⊢
    rcases hr : ({ s with latest := none } : Scanner).rawByte with ⟨_ | _ | b, s₁⟩ <;>
      rw [hr] at hread <;> cases hread <;>
      rw [show ({ s.calm with latest := none } : Scanner).rawByte = _ from hcalm hs hr]
    rfl

/-- Looking at a byte is dependable: it is put back. -/
theorem peekByte : Dependable peekByte where
  met {s} hs := by
    have hb := rawByte.met hs
    unfold Scanner.peekByte
    rcases hr : s.rawByte with ⟨_ | _ | b, s₁⟩ <;> rw [hr] at hb
    · exact hb
    · exact hb
    · exact hb.answered _
  calm {s s' b?} hs hread := by
    unfold Scanner.peekByte at hread ⊢
    rcases hr : s.rawByte with ⟨_ | _ | b, s₁⟩ <;> rw [hr] at hread <;> cases hread <;>
      rw [rawByte.calm hs hr]
    rfl

end Dependable

end Scanner

end ShellScript
