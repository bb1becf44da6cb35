import ShellScript.Proofs.Texts

/-!
# Reading ill-formed bytes a character at a time

There are two readings of bytes that are not UTF-8. `Utf8.lossyChars` has one U+FFFD for each maximal part
of an ill-formed sequence; a text that is read one character at a time has one for each byte that starts no
sequence, which is `Utf8.runes`. They are the same unless a sequence breaks off behind its second byte
(`lossyChars_eq_runes_iff`).
-/

namespace ShellScript

namespace Utf8

variable {a b lead : UInt8} {bytes more rest t : List UInt8} {c : Char} {n : Nat}

/-- A character that the bytes begin with is the next one. -/
theorem nextRune_of_some (h : next? (lead :: rest) = some (c, n)) : nextRune lead rest = (c, n) := by
  rw [nextRune, h]
  rfl

/-- Where none starts, the next one is a U+FFFD for one byte. -/
theorem nextRune_of_none (h : next? (lead :: rest) = none) : nextRune lead rest = (replacement, 1) := by
  rw [nextRune, h]
  rfl

/-- Every step takes at least one byte. -/
theorem length_nextRune_pos (lead : UInt8) (rest : List UInt8) : 0 < (nextRune lead rest).2 := by
  cases h : next? (lead :: rest) with
  | none =>
    rw [nextRune_of_none h]
    exact Nat.one_pos
  | some x =>
    rw [nextRune_of_some h]
    exact (next?_bounds h).1

/-- What stands behind the bytes makes no difference to their last character, if it continues no
sequence. -/
theorem nextRune_append (hmore : ∀ b ∈ more.head?, isContinuation b = false) (lead : UInt8)
    (rest : List UInt8) : nextRune lead (rest ++ more) = nextRune lead rest := by
  have hcut : (rest ++ more).takeWhile isContinuation = rest.takeWhile isContinuation := by
    cases more with
    | nil => rw [List.append_nil]
    | cons b more => exact takeWhile_append_of_not_isContinuation (hmore b rfl) rest more
  rw [nextRune, nextRune, ← next?_takeWhile lead (rest ++ more), hcut, next?_takeWhile]

/-! ## The characters, one at a time -/

/-- The characters of bytes that are read one character at a time, with one U+FFFD for each byte that starts
no sequence. -/
def runes (bytes : List UInt8) : List Char :=
  match bytes with
  | [] => []
  | lead :: rest =>
    (nextRune lead rest).1 :: runes ((lead :: rest).drop (nextRune lead rest).2)
termination_by bytes.length
decreasing_by
  have := length_nextRune_pos lead rest
  rw [List.length_drop, List.length_cons]
  omega

@[simp] theorem runes_nil : runes [] = [] := by rw [runes]

/-- The first character, and those of what it leaves. -/
theorem runes_cons (lead : UInt8) (rest : List UInt8) : runes (lead :: rest) =
    (nextRune lead rest).1 :: runes ((lead :: rest).drop (nextRune lead rest).2) := by
  rw [runes]

/-- A character that the bytes begin with comes first. -/
theorem runes_of_some (h : next? bytes = some (c, n)) : runes bytes = c :: runes (bytes.drop n) := by
  cases bytes with
  | nil => cases h
  | cons lead rest => rw [runes_cons, nextRune_of_some h]

/-- A byte that starts no character becomes a U+FFFD. -/
theorem runes_of_none (h : next? (lead :: rest) = none) :
    runes (lead :: rest) = replacement :: runes rest := by
  rw [runes_cons, nextRune_of_none h]
  rfl

/-- The characters of encoded text are those of the text. -/
theorem runes_encodeChars (cs : List Char) : runes (encodeChars cs) = cs := by
  induction cs with
  | nil => exact runes_nil
  | cons c cs ih =>
    have hc : encodeChars (c :: cs) = String.utf8EncodeChar c ++ encodeChars cs := rfl
    rw [hc, runes_of_some (next?_utf8EncodeChar c _), List.drop_left, ih]

/-- Continuation bytes that no lead claims are read one by one. -/
theorem runes_append_of_isContinuation (ht : ∀ b ∈ t, isContinuation b = true) (rest : List UInt8) :
    runes (t ++ rest) = List.replicate t.length replacement ++ runes rest := by
  induction t with
  | nil => rfl
  | cons b t ih =>
    have hb := next?_of_isContinuation (ht b (by simp)) (t ++ rest)
    rw [List.cons_append, runes_of_none hb, ih fun x hx => ht x (by simp [hx])]
    rfl

/-- An ASCII character is read from its byte only. -/
theorem ascii_mem_of_mem_runes (hc : c.toNat < 128) (h : c ∈ runes bytes) : ascii c ∈ bytes := by
  fun_induction runes bytes with
  | case1 => cases h
  | case2 lead rest ih =>
    rcases List.mem_cons.mp h with h | h
    · cases hn : next? (lead :: rest) with
      | none =>
        rw [nextRune_of_none hn] at h
        rw [h] at hc
        exact absurd hc (by decide)
      | some x =>
        rw [nextRune_of_some hn] at h
        obtain ⟨hbegins, -⟩ := utf8EncodeChar_of_next? hn
        rw [← h, utf8EncodeChar_ascii hc] at hbegins
        exact hbegins.subset (List.mem_singleton_self _)
    · exact List.mem_of_mem_drop (ih h)

/-! ## Sequences that break off -/

/-- Whether no sequence breaks off behind its second byte: wherever the first two bytes of a character stand,
the bytes of a whole character do. -/
def Unbroken (bytes : List UInt8) : Prop :=
  ∀ v, v <:+ bytes → ∀ c, (String.utf8EncodeChar c).take 2 <+: v → ∃ d, String.utf8EncodeChar d <+: v

/-- The bytes behind the lead of a broken sequence continue it. -/
theorem isContinuation_of_mem_brokenTail (h : b ∈ rest.take (brokenTail lead rest)) :
    isContinuation b = true := by
  have hsecond (x : UInt8) : mayFollow lead x = true → isContinuation x = true :=
    isContinuation_of_mayFollow
  unfold brokenTail at h
  repeat' split at h
  all_goals simp only [List.take_succ_cons, List.take_zero, List.mem_cons, List.not_mem_nil, or_false] at h
  all_goals grind

/-- No more bytes continue a broken sequence than there are. -/
theorem brokenTail_le (lead : UInt8) (rest : List UInt8) : brokenTail lead rest ≤ rest.length := by
  unfold brokenTail
  repeat' split
  all_goals simp

/-- A sequence breaks off behind its second byte only where it needs a third. -/
theorem brokenTail_pos : 0 < brokenTail lead rest ↔
    2 < width lead ∧ ∃ b, rest.head? = some b ∧ mayFollow lead b = true := by
  unfold brokenTail
  rcases width_cases lead with hw | hw | hw | hw <;> rcases rest with _ | ⟨b, _ | ⟨c, rest⟩⟩ <;>
    simp only [hw] <;> grind

/-- A character of more than two bytes has three or four. -/
theorem width_of_two_lt (h : 2 < width a) : width a = 3 ∨ width a = 4 := by
  have := width_cases a
  omega

/-- Two bytes that begin a character of more than two. -/
theorem exists_take_two (hlead : 2 < width lead) (hb : mayFollow lead b = true) :
    ∃ c, (String.utf8EncodeChar c).take 2 = [lead, b] := by
  have hlast : isContinuation 0x80 = true := by decide
  rcases width_of_two_lt hlead with hw | hw
  · exact ⟨_, congrArg (List.take 2) (utf8EncodeChar_three_bytes hw hb hlast)⟩
  · exact ⟨_, congrArg (List.take 2) (utf8EncodeChar_four_bytes hw hb hlast hlast)⟩

/-- In a character of more than two bytes the second one may follow the lead. -/
theorem mayFollow_of_next? {x : Char × Nat} (hlead : 2 < width lead) (h : next? (lead :: rest) = some x) :
    ∃ b, rest.head? = some b ∧ mayFollow lead b = true := by
  rcases width_of_two_lt hlead with hw | hw
  · rw [next?_of_width_three hw] at h
    grind
  · rw [next?_of_width_four hw] at h
    grind

/-- Where no character starts, a sequence is broken behind its second byte if the first two bytes of a
character stand there. -/
theorem brokenTail_pos_iff (h : next? (lead :: rest) = none) :
    0 < brokenTail lead rest ↔ ∃ c, (String.utf8EncodeChar c).take 2 <+: lead :: rest := by
  rw [brokenTail_pos]
  constructor
  · rintro ⟨hlead, b, hb, hfollow⟩
    obtain ⟨c, hc⟩ := exists_take_two hlead hfollow
    obtain ⟨rest, rfl⟩ := List.head?_eq_some_iff.mp hb
    exact ⟨c, hc ▸ ⟨rest, rfl⟩⟩
  · rintro ⟨c, hc⟩
    have hnone := next?_eq_none_iff.mp h c
    obtain ⟨a, tail, hbytes, hn⟩ := utf8EncodeChar_eq_cons c
    rw [hbytes] at hc hnone
    obtain ⟨rfl, htail⟩ := List.cons_prefix_cons.mp hc
    -- a character of two bytes or one would stand there whole
    have hlead : 2 < width a := by
      refine Nat.lt_of_not_le fun hshort => hnone ?_
      have hlength : (a :: tail).length = width a := length_of_next? hn
      rwa [List.take_of_length_le (hlength ▸ hshort)] at hc
    obtain ⟨b, hb, hfollow⟩ := mayFollow_of_next? hlead hn
    obtain ⟨tail, rfl⟩ := List.head?_eq_some_iff.mp hb
    obtain ⟨r, rfl⟩ := htail
    exact ⟨hlead, b, rfl, hfollow⟩

/-- Nothing breaks off where there are no bytes. -/
theorem unbroken_nil : Unbroken [] := by
  intro v hv c hc
  obtain ⟨a, t, hbytes, -⟩ := utf8EncodeChar_eq_cons c
  rw [List.suffix_nil.mp hv, hbytes] at hc
  simp at hc

/-- A byte behind which no character starts adds nothing but the sequence that it may break. -/
theorem unbroken_cons (h : next? (lead :: rest) = none) : Unbroken (lead :: rest) ↔
    brokenTail lead rest = 0 ∧ Unbroken rest := by
  constructor
  · intro hwhole
    refine ⟨?_, fun v hv => hwhole v (hv.trans (List.suffix_cons lead rest))⟩
    refine Nat.eq_zero_of_not_pos fun hpos => ?_
    obtain ⟨c, hc⟩ := (brokenTail_pos_iff h).mp hpos
    obtain ⟨d, hd⟩ := hwhole _ (List.suffix_refl _) c hc
    exact next?_eq_none_iff.mp h d hd
  · rintro ⟨hzero, hrest⟩ v hv c hc
    rcases List.suffix_cons_iff.mp hv with rfl | hv
    · have hpos := (brokenTail_pos_iff h).mpr ⟨c, hc⟩
      omega
    · exact hrest v hv c hc

/-- The first two bytes of a character stand nowhere within another one. -/
theorem not_take_two_of_isContinuation (hb : isContinuation b = true) (c : Char) (rest : List UInt8) :
    ¬(String.utf8EncodeChar c).take 2 <+: b :: rest := by
  obtain ⟨a, t, hbytes, hn⟩ := utf8EncodeChar_eq_cons c
  rw [hbytes, List.take_succ_cons, List.cons_prefix_cons]
  rintro ⟨rfl, -⟩
  rw [not_isContinuation_of_next? hn] at hb
  cases hb

/-- A whole sequence breaks nothing. -/
theorem unbroken_drop (h : next? bytes = some (c, n)) : Unbroken (bytes.drop n) ↔ Unbroken bytes := by
  obtain ⟨⟨rest, rfl⟩, rfl⟩ := next?_eq_some_iff.mp h
  rw [List.drop_left]
  constructor
  · rintro hrest v ⟨u, hu⟩ d hd
    rcases List.append_eq_append_iff.mp hu with ⟨t, ht, rfl⟩ | ⟨t, -, hv⟩
    · obtain ⟨a, tail, hbytes, hn⟩ := utf8EncodeChar_eq_cons c
      cases u with
      | nil => exact ⟨c, rest, by rw [ht]; rfl⟩
      | cons x u =>
        cases t with
        | nil => exact hrest _ (List.suffix_refl _) d hd
        | cons b t =>
          obtain ⟨-, rfl⟩ := List.cons.inj (hbytes.symm.trans ht)
          have hb : isContinuation b = true := isContinuation_of_mem_tail hn (by simp)
          exact absurd hd (not_take_two_of_isContinuation hb d _)
    · exact hrest v ⟨t, hv.symm⟩ d hd
  · exact fun hwhole v hv => hwhole v (hv.trans (List.suffix_append _ _))

/-- The first of the two readings puts the bytes of a broken sequence together, the second reads them one
by one. -/
theorem runes_of_broken (h : next? (lead :: rest) = none) : runes (lead :: rest) =
    replacement :: (List.replicate (brokenTail lead rest) replacement ++
      runes (rest.drop (brokenTail lead rest))) := by
  have hsplit := runes_append_of_isContinuation (t := rest.take (brokenTail lead rest))
    (fun b hb => isContinuation_of_mem_brokenTail hb) (rest.drop (brokenTail lead rest))
  rw [List.take_append_drop, List.length_take_of_le (brokenTail_le lead rest)] at hsplit
  rw [runes_of_none h, hsplit]

/-- The first reading has no more characters than the second. -/
theorem length_lossyChars_le (bytes : List UInt8) : (lossyChars bytes).length ≤ (runes bytes).length := by
  fun_induction lossyChars bytes with
  | case1 => exact Nat.zero_le _
  | case2 lead rest c n h ih =>
    rw [runes_of_some h]
    exact Nat.succ_le_succ ih
  | case3 lead rest h ih =>
    rw [runes_of_broken h, List.length_cons, List.length_cons, List.length_append]
    omega

/-- The two readings have the same characters if and only if no sequence breaks off behind its second
byte. -/
theorem lossyChars_eq_runes_iff (bytes : List UInt8) : lossyChars bytes = runes bytes ↔ Unbroken bytes := by
  fun_induction lossyChars bytes with
  | case1 => simp [unbroken_nil]
  | case2 lead rest c n h ih => rw [runes_of_some h, List.cons_inj_right, ih, unbroken_drop h]
  | case3 lead rest h ih =>
    rw [runes_of_broken h, List.cons_inj_right, unbroken_cons h]
    by_cases hzero : brokenTail lead rest = 0
    · rw [hzero, List.drop_zero] at ih ⊢
      simpa using ih
    · -- the second reading has more characters
      have hshort := length_lossyChars_le (rest.drop (brokenTail lead rest))
      constructor
      · intro hsame
        have hlength := congrArg List.length hsame
        rw [List.length_append, List.length_replicate] at hlength
        omega
      · exact fun hwhole => absurd hwhole.1 hzero

/-- No sequence breaks off in the bytes of a text. -/
theorem unbroken_encodeChars (cs : List Char) : Unbroken (encodeChars cs) :=
  (lossyChars_eq_runes_iff _).mp ((lossyChars_encodeChars cs).trans (runes_encodeChars cs).symm)

end Utf8

/-! ## Gathering characters -/

namespace Lexer

variable {β : Type} {l l₁ : Lexer Cursor} {lead : UInt8} {bytes more : List UInt8}

/-- A character is taken from bytes that end where a sequence may not go on. -/
theorem nextRune_bytes (hmore : ∀ b ∈ more.head?, Utf8.isContinuation b = false)
    (h : l.input.rest = lead :: bytes ++ more) : ∃ l',
    l.nextRune = (.ok (some (Utf8.nextRune lead bytes).1), l') ∧
      l'.input.rest = (lead :: bytes).drop (Utf8.nextRune lead bytes).2 ++ more ∧
      l'.filename = l.filename := by
  rw [List.cons_append] at h
  refine ⟨_, by
    simp only [nextRune, Input.nextRune, Cursor.nextRune, h, Utf8.nextRune_append hmore, lift]
    rfl, ?_⟩
  rw [← List.cons_append, List.drop_append_of_le_length (Utf8.length_nextRune_le lead bytes)]
  exact ⟨rfl, rfl⟩

/-- Whether a step of a loop adds the character `c` to the text that was begun. -/
def Adds (step : Gathering → Lexer Cursor → Read Cursor (Progress Gathering β)) (c : Char) : Prop :=
  ∀ {g l l₁}, l.nextRune = (.ok (some c), l₁) → step g l = (.ok (.more (g.push c l.position)), l₁)

/-- A loop that adds each of the characters that it reads gathers all of them, up to what follows. -/
theorem iterate_runes {step : Gathering → Lexer Cursor → Read Cursor (Progress Gathering β)}
    (takes : ∀ {g g' l l'}, step g l = (.ok (.more g'), l') → l'.size < l.size)
    (hadds : ∀ c ∈ Utf8.runes bytes, Adds step c)
    (hmore : ∀ b ∈ more.head?, Utf8.isContinuation b = false) (es : List Element) (text : String)
    (origin : Position) (h : l.input.rest = bytes ++ more) :
    ∃ l', iterate step takes ⟨es, ⟨text, some origin⟩⟩ l =
        iterate step takes ⟨es, ⟨text ++ String.ofList (Utf8.runes bytes), some origin⟩⟩ l' ∧
      l'.input.rest = more ∧ l'.filename = l.filename := by
  -- each character moves from what is left to the text, so the text is any
  induction bytes using Utf8.runes.induct generalizing text l with
  | case1 => exact ⟨l, by simp, h, rfl⟩
  | case2 lead rest ih =>
    rw [Utf8.runes_cons] at hadds ⊢
    obtain ⟨l₁, hn, hrest, hfilename⟩ := nextRune_bytes hmore h
    obtain ⟨l', hrun, hleft, hfilename'⟩ := ih (fun c hc => hadds c (by simp [hc]))
      (text.push (Utf8.nextRune lead rest).1) hrest
    refine ⟨l', ?_, hleft, hfilename'.trans hfilename⟩
    rw [iterate_eq, hadds _ (by simp) hn]
    refine hrun.trans ?_
    rw [String.push_eq_append, String.append_assoc, ← String.ofList_cons]

end Lexer

end ShellScript
