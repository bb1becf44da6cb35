import ShellScript.Proofs.Protection

/-!
# Backslashes between double quotes

Between double quotes, a backslash protects another one and goes away in front of a line end; elsewhere it is
kept with the character behind it (`unescaped`). That is what is read (`reading`) unless a carriage return
stands behind a backslash and no newline behind that. Such a carriage return is dropped, and the backslash
takes the next character, be it the quote that closes. No text that has one is read as it is meant
(`isOneToken_unescaped_iff`): what is read weighs less, by two for a carriage return that it lacks and by one
for a newline that it has.
-/

namespace ShellScript

/-! ## What is meant and what is read -/

/-- Whether no backslash is left over at the end of a text, when each takes the character behind it. -/
def Paired : List Char → Bool
  | [] => true
  | ['\\'] => false
  | '\\' :: _ :: rest => Paired rest
  | _ :: rest => Paired rest

/-- What a text is meant to say between double quotes: of two backslashes one is left, a backslash goes away
together with a line end behind it, and everything else is kept, other backslashes too. -/
def unescaped : List Char → List Char
  | '\\' :: '\\' :: rest => '\\' :: unescaped rest
  | '\\' :: '\n' :: rest => unescaped rest
  | '\\' :: '\r' :: '\n' :: rest => unescaped rest
  | '\\' :: c :: rest => '\\' :: c :: unescaped rest
  | c :: rest => c :: unescaped rest
  | [] => []

/-- Whether a backslash takes a carriage return that does not begin a line end. -/
def HasLoneReturn : List Char → Bool
  | '\\' :: '\r' :: rest => rest.head? ≠ some '\n' || HasLoneReturn rest
  | '\\' :: _ :: rest => HasLoneReturn rest
  | _ :: rest => HasLoneReturn rest
  | [] => false

/-- What is read of a text between double quotes: a carriage return behind a backslash is passed over, and the
backslash takes the character behind that. If it is the last one, it takes the quote that closes. -/
def reading : List Char → Option (List Char)
  | ['\\'] | ['\\', '\r'] => none
  | '\\' :: '\r' :: c :: rest => (reading rest).map (afterBackslash c ++ ·)
  | '\\' :: c :: rest => (reading rest).map (afterBackslash c ++ ·)
  | c :: rest => (reading rest).map (c :: ·)
  | [] => some []

/-- A text ends, or begins with what is read at once: a backslash with what it takes, or another character. -/
theorem reading_induction {motive : List Char → Prop} (nil : motive []) (slash : motive ['\\'])
    (slashReturn : motive ['\\', '\r'])
    (pastReturn : ∀ c rest, motive rest → motive ('\\' :: '\r' :: c :: rest))
    (backslash : ∀ c rest, c ≠ '\r' → motive rest → motive ('\\' :: c :: rest))
    (cons : ∀ c rest, c ≠ '\\' → motive rest → motive (c :: rest)) (t : List Char) : motive t := by
  fun_induction reading t with
  | case1 => exact slash
  | case2 => exact slashReturn
  | case3 c rest ih => exact pastReturn c rest ih
  | case4 c rest hlast hnext ih =>
    refine backslash c rest ?_ ih
    rintro rfl
    cases rest with
    | nil => exact hlast rfl rfl
    | cons d rest => exact hnext d rest rfl rfl
  | case5 c rest hend _ _ hother ih =>
    refine cons c rest ?_ ih
    rintro rfl
    cases rest with
    | nil => exact hend rfl rfl
    | cons d rest => exact hother d rest rfl rfl
  | case6 => exact nil

section

variable {c : Char} {rest : List Char}

/-- Behind a carriage return, the backslash takes the next character. -/
theorem reading_pastReturn :
    reading ('\\' :: '\r' :: c :: rest) = (reading rest).map (afterBackslash c ++ ·) := by
  simp [reading]

/-- A character without a backslash is kept. -/
theorem reading_cons (hc : c ≠ '\\') : reading (c :: rest) = (reading rest).map (c :: ·) := by
  simp [reading, hc]

/-- A backslash takes the character behind it. -/
theorem reading_backslash (hc : c ≠ '\r') :
    reading ('\\' :: c :: rest) = (reading rest).map (afterBackslash c ++ ·) := by
  simp [reading, hc]

/-- A character without a backslash is meant as it is. -/
theorem unescaped_cons (hc : c ≠ '\\') : unescaped (c :: rest) = c :: unescaped rest := by
  simp [unescaped, hc]

/-- A backslash that protects nothing is meant to stay. -/
theorem unescaped_backslash (hc : c ∉ ['\\', '\n', '\r']) :
    unescaped ('\\' :: c :: rest) = '\\' :: c :: unescaped rest := by
  simp only [List.mem_cons, List.not_mem_nil, or_false, not_or] at hc
  simp [unescaped, hc]

/-- So is one with a carriage return that begins no line end. -/
theorem unescaped_return (hrest : rest.head? ≠ some '\n') :
    unescaped ('\\' :: '\r' :: rest) = '\\' :: '\r' :: unescaped rest := by
  cases rest with
  | nil => rfl
  | cons c rest => simp_all [unescaped]

/-- A character without a backslash is no lone return. -/
theorem hasLoneReturn_cons (hc : c ≠ '\\') : HasLoneReturn (c :: rest) = HasLoneReturn rest := by
  simp [HasLoneReturn, hc]

/-- What a backslash takes is one only if it is a carriage return. -/
theorem hasLoneReturn_backslash (hc : c ≠ '\r') : HasLoneReturn ('\\' :: c :: rest) = HasLoneReturn rest := by
  simp [HasLoneReturn]

end

/-! ## What lone returns change -/

/-- What a character weighs when what is read is compared with what is meant. -/
def weight (c : Char) : Int :=
  if c = '\r' then 2 else if c = '\n' then -1 else 0

/-- What the characters of a text weigh together. -/
def total : List Char → Int
  | [] => 0
  | c :: cs => weight c + total cs

@[simp] theorem total_nil : total [] = 0 := rfl

@[simp] theorem total_cons (c : Char) (cs : List Char) : total (c :: cs) = weight c + total cs := rfl

/-- Weights add up. -/
@[simp] theorem total_append (cs ds : List Char) : total (cs ++ ds) = total cs + total ds := by
  induction cs with
  | nil => simp
  | cons c cs ih =>
    rw [List.cons_append, total_cons, total_cons, ih]
    omega

@[simp] theorem weight_backslash : weight '\\' = 0 := rfl

@[simp] theorem weight_newline : weight '\n' = -1 := rfl

@[simp] theorem weight_return : weight '\r' = 2 := rfl

@[simp] theorem afterBackslash_backslash : afterBackslash '\\' = ['\\'] := rfl

@[simp] theorem afterBackslash_newline : afterBackslash '\n' = [] := rfl

/-- What a backslash leaves weighs as much as the character that it takes. -/
theorem total_afterBackslash {c : Char} (hc : c ≠ '\n') : total (afterBackslash c) = weight c := by
  unfold afterBackslash
  split <;> simp

/-- What is known of the weight of what is read. Behind a lone return, what is read and what is meant are one
backslash apart: it is still ahead for what is meant, or for what is read. -/
structure Outweighed (t : List Char) : Prop where
  level : ∀ {u}, reading t = some u →
    total u ≤ total (unescaped t) ∧ (HasLoneReturn t → total u < total (unescaped t))
  ahead : ∀ {u}, reading t = some u → total u < total (unescaped ('\\' :: t)) + 2
  behind : ∀ {u}, reading ('\\' :: t) = some u → total u < total (unescaped t) + 2

section

variable {t u : List Char}

/-- What a backslash takes when only what is read has one. -/
theorem Outweighed.afterBackslash (h : Outweighed t) (hu : reading t = some u) (c : Char) :
    total (afterBackslash c ++ u) < total (unescaped (c :: t)) + 2 := by
  have hlevel := (h.level hu).1
  by_cases hslash : c = '\\'
  · subst hslash
    simpa using h.ahead hu
  rw [unescaped_cons hslash, total_cons, total_append]
  by_cases hnewline : c = '\n'
  · subst hnewline
    simp
    omega
  · rw [total_afterBackslash hnewline]
    omega

variable (ih : ∀ r : List Char, r.length < t.length → Outweighed r)

include ih

/-- Where what is read and what is meant are abreast, a lone return makes what is read lighter. -/
theorem level_of_shorter (h : reading t = some u) :
    total u ≤ total (unescaped t) ∧ (HasLoneReturn t → total u < total (unescaped t)) := by
  induction t using reading_induction with
  | nil =>
    cases h
    exact ⟨Int.le_refl _, nofun⟩
  | slash => cases h
  | slashReturn => cases h
  | pastReturn c rest =>
    obtain ⟨v, hv, rfl⟩ := Option.map_eq_some_iff.mp h
    have hrest := ih rest (by grind)
    by_cases hnewline : c = '\n'
    · subst hnewline
      simpa [unescaped, HasLoneReturn] using hrest.level hv
    · -- the return is lone
      have hless := hrest.afterBackslash hv c
      rw [unescaped_return (by simpa), total_cons, total_cons, weight_backslash, weight_return]
      exact ⟨by omega, fun _ => by omega⟩
  | backslash c rest hreturn =>
    rw [reading_backslash hreturn] at h
    obtain ⟨v, hv, rfl⟩ := Option.map_eq_some_iff.mp h
    have hlevel := (ih rest (by grind)).level hv
    rw [hasLoneReturn_backslash hreturn]
    by_cases hc : c ∈ ['\\', '\n', '\r']
    · simp only [List.mem_cons, List.not_mem_nil, or_false, hreturn] at hc
      rcases hc with rfl | rfl <;> simpa [unescaped] using hlevel
    · have hnewline : c ≠ '\n' := by
        rintro rfl
        simp at hc
      rw [unescaped_backslash hc, total_append, total_afterBackslash hnewline]
      simpa using hlevel
  | cons c rest hslash =>
    rw [reading_cons hslash] at h
    obtain ⟨v, hv, rfl⟩ := Option.map_eq_some_iff.mp h
    have hlevel := (ih rest (by simp)).level hv
    rw [unescaped_cons hslash, hasLoneReturn_cons hslash]
    simpa using hlevel

/-- With a backslash left for what is meant only, what is read weighs less than two more. -/
theorem ahead_of_shorter (h : reading t = some u) : total u < total (unescaped ('\\' :: t)) + 2 := by
  cases t with
  | nil =>
    cases h
    decide
  | cons c rest =>
    by_cases hslash : c = '\\'
    · subst hslash
      simpa [unescaped] using (ih rest (by simp)).behind h
    rw [reading_cons hslash] at h
    obtain ⟨v, hv, rfl⟩ := Option.map_eq_some_iff.mp h
    have hlevel := ((ih rest (by simp)).level hv).1
    by_cases hnewline : c = '\n'
    · subst hnewline
      simp [unescaped]
      omega
    by_cases hreturn : c = '\r'
    · subst hreturn
      -- the backslash means nothing in front of a line end, and stays with a lone return
      by_cases hline : rest.head? = some '\n'
      · obtain ⟨rest, rfl⟩ := List.head?_eq_some_iff.mp hline
        rw [unescaped_cons (by decide)] at hlevel
        simp [unescaped] at hlevel ⊢
        omega
      · rw [unescaped_return hline]
        simp
        omega
    · rw [unescaped_backslash (by simp [*])]
      simp
      omega

/-- So it does with a backslash left for what is read only. -/
theorem behind_of_shorter (h : reading ('\\' :: t) = some u) : total u < total (unescaped t) + 2 := by
  cases t with
  | nil => cases h
  | cons c rest =>
    by_cases hreturn : c = '\r'
    · subst hreturn
      cases rest with
      | nil => cases h
      | cons c rest =>
        obtain ⟨v, hv, rfl⟩ := Option.map_eq_some_iff.mp h
        have hless := (ih rest (by grind)).afterBackslash hv c
        rw [unescaped_cons (by decide), total_cons, weight_return]
        omega
    · rw [reading_backslash hreturn] at h
      obtain ⟨v, hv, rfl⟩ := Option.map_eq_some_iff.mp h
      exact (ih rest (by simp)).afterBackslash hv c

end

/-- What is read of any text weighs no more than what is meant, and less behind a lone return. -/
theorem outweighed (t : List Char) : Outweighed t := by
  induction hlength : t.length using Nat.strong_induction_on generalizing t with
  | h n ih =>
    have ih : ∀ r : List Char, r.length < t.length → Outweighed r :=
      fun r hr => ih r.length (hlength ▸ hr) r rfl
    exact ⟨level_of_shorter ih, ahead_of_shorter ih, behind_of_shorter ih⟩

/-- A character that is not special between double quotes keeps its backslash. -/
theorem afterBackslash_of_not_mem {c : Char} (hc : c ∉ doubleQuoteSpecials) (hnewline : c ≠ '\n') :
    afterBackslash c = ['\\', c] := by
  rw [afterBackslash, if_neg hc, if_neg hnewline]

/-- Whether backslashes are the only characters of a text that are special between double quotes. -/
def OnlyBackslashes (t : List Char) : Prop := ∀ c ∈ t, c ∈ doubleQuoteSpecials → c = '\\'

namespace OnlyBackslashes

variable {c : Char} {t : List Char}

/-- What is left of such a text is one too. -/
theorem tail (h : OnlyBackslashes (c :: t)) : OnlyBackslashes t :=
  fun d hd => h d (List.mem_cons_of_mem c hd)

/-- A character of such a text is not special, unless it is a backslash. -/
theorem head (h : OnlyBackslashes (c :: t)) (hc : c ≠ '\\') : c ∉ doubleQuoteSpecials :=
  fun hspecial => hc (h c List.mem_cons_self hspecial)

end OnlyBackslashes

/-- Without lone returns, a text is read as it is meant. -/
theorem reading_of_not_hasLoneReturn {t : List Char} (hplain : OnlyBackslashes t)
    (hpaired : Paired t) (h : HasLoneReturn t = false) : reading t = some (unescaped t) := by
  induction t using reading_induction with
  | nil => rfl
  | slash => cases hpaired
  | slashReturn => cases h
  | pastReturn c rest ih =>
    obtain ⟨rfl, hrest⟩ : c = '\n' ∧ HasLoneReturn (c :: rest) = false := by
      simpa [HasLoneReturn] using h
    rw [reading_pastReturn, ih hplain.tail.tail.tail (by simpa [Paired] using hpaired)
      (by simpa [HasLoneReturn] using hrest)]
    simp [unescaped]
  | backslash c rest hreturn ih =>
    rw [hasLoneReturn_backslash hreturn] at h
    rw [reading_backslash hreturn, ih hplain.tail.tail (by simpa [Paired] using hpaired) h]
    by_cases hc : c ∈ ['\\', '\n', '\r']
    · simp only [List.mem_cons, List.not_mem_nil, or_false, hreturn] at hc
      rcases hc with rfl | rfl <;> simp [unescaped]
    · obtain ⟨hslash, hnewline, -⟩ : c ≠ '\\' ∧ c ≠ '\n' ∧ c ≠ '\r' := by simpa using hc
      rw [unescaped_backslash hc, Option.map_some,
        afterBackslash_of_not_mem (hplain.tail.head hslash) hnewline]
      rfl
  | cons c rest hslash ih =>
    rw [hasLoneReturn_cons hslash] at h
    have hpaired : Paired rest := by simpa [Paired, hslash] using hpaired
    rw [reading_cons hslash, ih hplain.tail hpaired h, unescaped_cons hslash]
    rfl

/-- A text is read as it is meant if and only if it has no lone returns. -/
theorem reading_eq_unescaped_iff {t : List Char} (hplain : OnlyBackslashes t) (hpaired : Paired t) :
    reading t = some (unescaped t) ↔ HasLoneReturn t = false := by
  refine ⟨fun h => ?_, reading_of_not_hasLoneReturn hplain hpaired⟩
  rw [← Bool.not_eq_true]
  exact fun hlone => absurd (((outweighed t).level h).2 hlone) (Int.lt_irrefl _)

/-! ## Reading -/

namespace Lexer

variable {l l₁ : Lexer Cursor} {t u : List Char}

/-- The character behind a carriage return is read in its place. -/
theorem nextPastReturn_of_return (hn : l.nextRune = (.ok (some '\r'), l₁)) :
    l.nextPastReturn = l₁.nextRune := by
  simp only [nextPastReturn, hn]

/-- A carriage return behind a backslash is passed over. -/
theorem nextPastReturn_takes_return {rest : List UInt8} {c : Char}
    (h : l.input.rest = Utf8.encodeChars ['\\', '\r', c] ++ rest) :
    ∃ l₁ l₂, l.nextRune = (.ok (some '\\'), l₁) ∧ l₁.nextPastReturn = (.ok (some c), l₂) ∧
      l₁.filename = l.filename ∧ l₂.filename = l.filename ∧ l₂.input.rest = rest := by
  have h' : l.input.rest = String.utf8EncodeChar '\\' ++
      (String.utf8EncodeChar '\r' ++ (String.utf8EncodeChar c ++ rest)) := by
    rw [h]
    simp
  obtain ⟨l₁, hn₁, htakes₁, -⟩ := nextRune_takes h'
  obtain ⟨l₂, hn₂, htakes₂, -⟩ := nextRune_takes (htakes₁.rest_eq h')
  obtain ⟨l₃, hn₃, htakes₃, -⟩ := nextRune_takes (htakes₂.rest_eq (htakes₁.rest_eq h'))
  have htakes := (htakes₁.trans htakes₂).trans htakes₃
  exact ⟨l₁, l₃, hn₁, (nextPastReturn_of_return hn₂).trans hn₃, htakes₁.filename, htakes.filename,
    htakes.rest_eq (by simpa using h')⟩

/-- It adds nothing. -/
theorem Conveys.pastReturn (c : Char) : Conveys ['\\', '\r', c] (afterBackslash c) :=
  of_nextPastReturn nextPastReturn_takes_return

/-- What is read of a text is conveyed to the literal that its quotes are. -/
theorem Conveys.of_reading (hplain : OnlyBackslashes t) (h : reading t = some u) : Conveys t u := by
  induction t using reading_induction generalizing u with
  | nil =>
    cases h
    exact .nil
  | slash => cases h
  | slashReturn => cases h
  | pastReturn c rest ih =>
    obtain ⟨v, hv, rfl⟩ := Option.map_eq_some_iff.mp h
    exact (pastReturn c).append (ih hplain.tail.tail.tail hv)
  | backslash c rest hreturn ih =>
    rw [reading_backslash hreturn] at h
    obtain ⟨v, hv, rfl⟩ := Option.map_eq_some_iff.mp h
    exact (backslash hreturn).append (ih hplain.tail.tail hv)
  | cons c rest hslash ih =>
    rw [reading_cons hslash] at h
    obtain ⟨v, hv, rfl⟩ := Option.map_eq_some_iff.mp h
    exact (plain (hplain.head hslash)).append (ih hplain.tail hv)

/-- What conveys something does so up to the end, where the closing quote is missing. -/
theorem Conveys.unterminated (h : Conveys t u) (opening : Position) (before : String)
    (hl : l.input.rest = Utf8.encodeChars t) :
    ∃ l', iterate (doubleQuoteStep opening) size_doubleQuoteStep_lt ⟨[], ⟨before, some opening⟩⟩ l =
      (.error (.unterminatedQuote .double (l.place opening)), l') := by
  rw [← List.append_nil (Utf8.encodeChars t)] at hl
  obtain ⟨l₁, hrun, hrest, hfilename⟩ := h opening before hl
  obtain ⟨l₂, hn, -⟩ := nextRune_takes_none hrest
  refine ⟨l₂, ?_⟩
  rw [hrun, iterate_eq]
  unfold doubleQuoteStep
  simp only [hn, place, hfilename]

/-- Where a backslash takes the closing quote, none closes. -/
theorem exists_conveys_of_reading_eq_none (hplain : OnlyBackslashes t) (h : reading t = none) :
    ∃ u, Conveys (t ++ ['"']) u := by
  induction t using reading_induction with
  | nil => cases h
  | slash => exact ⟨_, .backslash (by decide)⟩
  | slashReturn => exact ⟨_, .pastReturn '"'⟩
  | pastReturn c rest ih =>
    obtain ⟨u, hu⟩ := ih hplain.tail.tail.tail (by simpa [reading_pastReturn] using h)
    exact ⟨_, (Conveys.pastReturn c).append hu⟩
  | backslash c rest hreturn ih =>
    obtain ⟨u, hu⟩ := ih hplain.tail.tail (by simpa [reading_backslash hreturn] using h)
    exact ⟨_, (Conveys.backslash hreturn).append hu⟩
  | cons c rest hslash ih =>
    obtain ⟨u, hu⟩ := ih hplain.tail (by simpa [reading_cons hslash] using h)
    exact ⟨_, (Conveys.plain (hplain.head hslash)).append hu⟩

/-- Then all that is left is read, and the quotes are not terminated. -/
theorem readOn_unterminated {escape : EscapeSet} (commandOpen : Bool) (es : List Element)
    (hquote : escape.contains '"' = false) (hplain : OnlyBackslashes t)
    (hread : reading t = none) (h : l.input.rest = Utf8.encodeChars ('"' :: t ++ ['"'])) :
    ∃ l', readOn escape commandOpen es l = (.error (.unterminatedQuote .double l.location), l') := by
  obtain ⟨u, hconveys⟩ := exists_conveys_of_reading_eq_none hplain hread
  have hquotes : l.input.rest = String.utf8EncodeChar '"' ++ Utf8.encodeChars (t ++ ['"']) := h
  obtain ⟨l₁, hn, htakes, -⟩ := nextRune_takes hquotes
  obtain ⟨l₂, hrun⟩ := hconveys.unterminated l.position "" (htakes.rest_eq hquotes)
  have hopen : l₁.readDoubleQuoted l.position = (.error (.unterminatedQuote .double l.location), l₂) := by
    rw [readDoubleQuoted, hrun, location, place, place, htakes.filename]
  refine ⟨l₂, ?_⟩
  rw [readOn, iterate_eq]
  unfold wordStep wordRune
  simp only [hn, role_doubleQuote hquote, hopen]

end Lexer

/-! ## Tokens -/

section

variable {filename : String} {escape : EscapeSet} {text : String}

/-- A text between double quotes. -/
def betweenDoubleQuotes (text : String) : String := "\"" ++ text ++ "\""

/-- Between double quotes, a text is the literal that is read of it; where a quote is taken by a backslash there
is no token. -/
theorem isOneToken_iff_reading (filename : String) (hquote : escape.contains '"' = false)
    (hplain : OnlyBackslashes text.toList) (t : Token) :
    IsOneToken (Utf8.encode (betweenDoubleQuotes text)) filename escape t ↔
      ∃ u, reading text.toList = some u ∧ t = .literal filename (String.ofList u) := by
  have hsource : (Parser.ofCursor (Utf8.encode (betweenDoubleQuotes text)) filename escape).lexer.input.rest =
      Utf8.encodeChars ('"' :: text.toList ++ ['"']) := by
    simp [betweenDoubleQuotes, Utf8.encode]
  cases hread : reading text.toList with
  | some u =>
    have hliteral : IsOneToken (Utf8.encode (betweenDoubleQuotes text)) filename escape
        (.literal filename (String.ofList u)) :=
      Lexer.isOneToken_of_readOn (by simp) fun commandOpen =>
        Lexer.readOn_conveyed commandOpen [] hquote (.of_reading hplain hread)
          (hsource.trans (List.append_nil _).symm)
    refine ⟨fun h => ⟨u, rfl, h.unique hliteral⟩, ?_⟩
    rintro ⟨v, ⟨rfl⟩, rfl⟩
    exact hliteral
  | none =>
    refine iff_of_false (fun h => ?_) (by simp)
    obtain ⟨l, hl, -⟩ := Parser.exists_readToken_ofBytes.mp (h false)
    obtain ⟨l', hl'⟩ := Lexer.readOn_unterminated false [] hquote hplain hread hsource
    cases hl.symm.trans hl'

/-- A text whose only special characters are backslashes, none of which is left over at its end, is one literal
between double quotes, and this is what is meant, if and only if no backslash takes a carriage return without a
newline behind it. In any case it is what is read, if that comes to an end. -/
theorem isOneToken_unescaped_iff (filename : String) (hquote : escape.contains '"' = false)
    (hplain : ∀ c ∈ ['"', '$', '`'], c ∉ text.toList) (hpaired : Paired text.toList) :
    (IsOneToken (Utf8.encode (betweenDoubleQuotes text)) filename escape
        (.literal filename (String.ofList (unescaped text.toList))) ↔ HasLoneReturn text.toList = false) ∧
      ∀ t, IsOneToken (Utf8.encode (betweenDoubleQuotes text)) filename escape t ↔
        ∃ u, reading text.toList = some u ∧ t = .literal filename (String.ofList u) := by
  have hplain : OnlyBackslashes text.toList := by
    intro c hc hspecial
    by_contra hslash
    refine hplain c ?_ hc
    simpa [doubleQuoteSpecials, hslash] using hspecial
  have htokens := isOneToken_iff_reading filename hquote hplain
  refine ⟨?_, htokens⟩
  rw [htokens, ← reading_eq_unescaped_iff hplain hpaired]
  simp [Token.literal, String.ofList_inj]

end

/-- Backslashes before a backslash, a letter and the two line ends. -/
theorem isOneToken_unescaped_iff_kept :
    let text := "\\\\é\\x\\\n\\\r\ny"
    EscapeSet.default.contains '"' = false ∧ (∀ c ∈ ['"', '$', '`'], c ∉ text.toList) ∧ Paired text.toList ∧
      HasLoneReturn text.toList = false ∧
      IsOneToken (Utf8.encode (betweenDoubleQuotes text)) "s" .default (.literal "s" "\\é\\xy") := by
  intro text
  have hquote : EscapeSet.default.contains '"' = false := by decide
  have hplain : ∀ c ∈ ['"', '$', '`'], c ∉ text.toList := by simp [text]
  have hpaired : Paired text.toList := by decide
  have hlone : HasLoneReturn text.toList = false := by decide
  have hmeant : String.ofList (unescaped text.toList) = "\\é\\xy" := by decide
  have htoken := (isOneToken_unescaped_iff "s" hquote hplain hpaired).1.mpr hlone
  exact ⟨hquote, hplain, hpaired, hlone, hmeant ▸ htoken⟩

/-- The carriage return behind a backslash and before a letter is lost. -/
theorem not_isOneToken_unescaped_return :
    ¬∀ text : String, (∀ c ∈ ['"', '$', '`'], c ∉ text.toList) → Paired text.toList →
      IsOneToken (Utf8.encode (betweenDoubleQuotes text)) "s" .default
        (.literal "s" (String.ofList (unescaped text.toList))) := by
  intro h
  have hplain : OnlyBackslashes "\\\rx".toList := by simp [OnlyBackslashes, doubleQuoteSpecials]
  have hlost := (isOneToken_iff_reading "s" (by decide) hplain _).mp (h "\\\rx" (by simp) (by decide))
  revert hlost
  decide

end ShellScript
