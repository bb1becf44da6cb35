import ShellScript.Proofs.Diagnostics
import ShellScript.Proofs.Interchange

/-!
# Where commands and their literals begin

A command is located where its first word starts, and a literal where its source text begins. The lexer keeps
the two apart: the start of a token moves past blanks only, the origin of a literal is marked by the first
character that is gathered. If the first element of a command is a literal they are the same place, except in
three cases (`Displaced`). A line continuation in front of the word is part of the word and not of the literal.
A bare dollar sign just behind the opening quote begins a literal of its own. And the dollar sign of `$"…"`
stands in front of the quote that the literal begins at. `literalStart` says where the literal begins then, and
`Parser.origin_of_serve` that this is what happens.
-/

namespace ShellScript

/-- Whether a position is the one in front of what is left of a text. -/
def Position.Before (text rest : List Char) (p : Position) : Prop :=
  ∃ u, text = u ++ rest ∧ p = .behind u

/-! ## The beginning of a word -/

/-- What is left of a text behind the line continuations that it begins with. -/
def pastContinuations : List Char → List Char
  | '\\' :: '\n' :: rest => pastContinuations rest
  | '\\' :: '\r' :: '\n' :: rest => pastContinuations rest
  | text => text

/-- Where the first literal of a double-quoted text begins: at the quote, unless a bare dollar sign comes
first. -/
def quoteStart (inner : List Char) : List Char :=
  match pastContinuations inner with
  | '$' :: rest => '$' :: rest
  | _ => '"' :: inner

/-- Where the first element of a word begins if it is a literal. -/
def literalStart (word : List Char) : List Char :=
  match pastContinuations word with
  | '"' :: inner => quoteStart inner
  | '$' :: '"' :: inner => quoteStart inner
  | rest => rest

/-- Whether a word that begins with a literal begins in front of it. -/
inductive Displaced : List Char → Prop
  | continuation {rest : List Char} : Displaced ('\\' :: '\n' :: rest)
  | returned {rest : List Char} : Displaced ('\\' :: '\r' :: '\n' :: rest)
  | dollar {inner rest : List Char} (h : pastContinuations inner = '$' :: rest) : Displaced ('"' :: inner)
  | localized {inner : List Char} : Displaced ('$' :: '"' :: inner)

/-- A text that does not begin with a backslash begins with no continuation. -/
theorem pastContinuations_of_head {c : Char} (h : c ≠ '\\') (rest : List Char) :
    pastContinuations (c :: rest) = c :: rest := by
  unfold pastContinuations
  split
  · rename_i heq
    exact absurd (List.cons_eq_cons.mp heq).1 h
  · rename_i heq
    exact absurd (List.cons_eq_cons.mp heq).1 h
  · rfl

/-- What is left behind continuations is no longer than the text. -/
theorem length_pastContinuations_le (text : List Char) :
    (pastContinuations text).length ≤ text.length := by
  fun_induction pastContinuations text with
  | case1 rest ih =>
    simp only [List.length_cons]
    omega
  | case2 rest ih =>
    simp only [List.length_cons]
    omega
  | case3 text => exact Nat.le_refl _

/-- A quoted literal begins at its quote or further on. -/
theorem length_quoteStart_le (inner : List Char) : (quoteStart inner).length ≤ inner.length + 1 := by
  have hpast := length_pastContinuations_le inner
  unfold quoteStart
  split
  · rename_i heq
    rw [heq] at hpast
    exact Nat.le_succ_of_le hpast
  · exact Nat.le_refl _

/-- A quoted literal begins at its quote unless a bare dollar sign stands first. -/
theorem quoteStart_eq_iff {inner : List Char} :
    quoteStart inner = '"' :: inner ↔ ∀ rest, pastContinuations inner ≠ '$' :: rest := by
  unfold quoteStart
  constructor
  · intro h rest hpast
    rw [hpast] at h
    exact absurd (List.cons_eq_cons.mp h).1 (by decide)
  · intro h
    split
    · rename_i heq
      exact absurd heq (h _)
    · rfl

/-- A literal begins behind the continuations in front of it. -/
theorem length_literalStart_le (word : List Char) :
    (literalStart word).length ≤ (pastContinuations word).length := by
  unfold literalStart
  split
  · rename_i inner heq
    rw [heq]
    exact length_quoteStart_le inner
  · rename_i inner heq
    rw [heq]
    exact Nat.le_succ_of_le (length_quoteStart_le inner)
  · exact Nat.le_refl _

/-- A word that a quote opens begins where the quote has it. -/
theorem literalStart_quote (inner : List Char) : literalStart ('"' :: inner) = quoteStart inner := by
  rw [literalStart, pastContinuations_of_head (by decide)]
  rfl

/-- The dollar sign in front of a quote is not a part of the literal. -/
theorem literalStart_localized (inner : List Char) :
    literalStart ('$' :: '"' :: inner) = quoteStart inner := by
  rw [literalStart, pastContinuations_of_head (by decide)]
  rfl

/-- Continuations make no difference to where the literal begins. -/
theorem literalStart_congr {word word' : List Char}
    (h : pastContinuations word = pastContinuations word') : literalStart word = literalStart word' := by
  rw [literalStart, h, literalStart]

/-- A literal begins with its word in all the other cases. -/
theorem literalStart_eq_self_iff {word : List Char} : literalStart word = word ↔ ¬Displaced word := by
  constructor
  · intro h hdisplaced
    have hlength := congrArg List.length h
    have hle := length_literalStart_le word
    -- what is left where the literal begins is shorter than the word
    cases hdisplaced with
    | @continuation rest =>
      have hrest := length_pastContinuations_le rest
      rw [pastContinuations] at hle
      simp only [List.length_cons] at hlength
      omega
    | @returned rest =>
      have hrest := length_pastContinuations_le rest
      rw [pastContinuations] at hle
      simp only [List.length_cons] at hlength
      omega
    | @dollar inner rest hpast =>
      rw [literalStart_quote] at h
      exact quoteStart_eq_iff.mp h rest hpast
    | @localized inner =>
      have hquote := length_quoteStart_le inner
      rw [literalStart_localized] at hlength
      simp only [List.length_cons] at hlength
      omega
  · intro h
    have hpast : pastContinuations word = word := by
      unfold pastContinuations
      split
      · exact absurd .continuation h
      · exact absurd .returned h
      · rfl
    unfold literalStart
    rw [hpast]
    split
    · exact quoteStart_eq_iff.mpr fun rest heq => h (.dollar heq)
    · exact absurd .localized h
    · rfl

/-! ## The first element -/

section

variable {label : String} {text rest : List Char} {es : List Element}

/-- Whether there is a first element, and it begins at what is left of a text if it is a literal. -/
def StartsAt (label : String) (text rest : List Char) (es : List Element) : Prop :=
  ∃ e fs, es = e :: fs ∧ ∀ t, e = .literal t → ∃ p, t.origin = ⟨label, p⟩ ∧ p.Before text rest

/-- Elements behind the first make no difference. -/
theorem StartsAt.append (h : StartsAt label text rest es) (fs : List Element) :
    StartsAt label text rest (es ++ fs) := by
  obtain ⟨e, es, rfl, he⟩ := h
  exact ⟨e, es ++ fs, rfl, he⟩

/-- A literal whose origin is known begins there. -/
theorem startsAt_literal {t : Literal} {p : Position} (ht : t.origin = ⟨label, p⟩)
    (hp : p.Before text rest) : StartsAt label text rest [.literal t] := by
  refine ⟨_, [], rfl, fun t' ht' => ?_⟩
  cases ht'
  exact ⟨p, ht, hp⟩

/-- The same of a word in the making. -/
inductive Gathering.StartsAt (label : String) (text rest : List Char) (g : Gathering) : Prop
  | element (h : ShellScript.StartsAt label text rest g.elements)
  | draft {p : Position} (none : g.elements = []) (begun : g.draft.text.isEmpty = false)
    (origin : g.draft.origin = some p) (before : p.Before text rest)

namespace Gathering

variable {g : Gathering}

/-- A word in the making begins where it will when its text is over. -/
theorem StartsAt.settle (h : g.StartsAt label text rest) :
    ShellScript.StartsAt label text rest (g.settle label) := by
  unfold Gathering.settle
  cases h with
  | element h =>
    split
    · exact h
    · exact h.append _
  | draft hnone hbegun horigin hbefore =>
    rw [hbegun, hnone, horigin]
    exact startsAt_literal rfl hbefore

/-- Text that was begun goes on. -/
theorem StartsAt.push (h : g.StartsAt label text rest) (c : Char) (p : Position) :
    (g.push c p).StartsAt label text rest := by
  cases h with
  | element h => exact .element h
  | @draft q hnone hbegun horigin hbefore =>
    refine .draft hnone ?_ ?_ hbefore
    · simp [Gathering.push, Draft.push]
    · simp [Gathering.push, Draft.push, horigin]

/-- Text begins with its first character. -/
theorem startsAt_push {p q : Position} (hnone : g.elements = []) (c : Char)
    (horigin : g.draft.origin.getD p = q) (hq : q.Before text rest) :
    (g.push c p).StartsAt label text rest := by
  refine .draft hnone ?_ (congrArg some horigin) hq
  simp [Gathering.push, Draft.push]

end Gathering

end

namespace Lexer

variable {label : String} {text x : List Char} {l l₁ l' : Lexer Cursor}

/-- A lexer in front of what is left of a text. -/
structure Faces (text x : List Char) (l : Lexer Cursor) : Prop where
  position : l.position.Before text x
  rest : l.input.rest = Utf8.encodeChars x

/-- A lexer between two characters has some rest of the text in front of it. -/
theorem Stands.faces (h : Stands label text l) : ∃ x, l.Faces text x := by
  obtain ⟨u, x, htext, hu, hx⟩ := h.point
  exact ⟨x, ⟨u, htext, hu⟩, hx⟩

/-- The next character is the first of the rest. -/
theorem Faces.nextRune {c : Char} (h : l.Faces text x) (hn : l.nextRune = (.ok (some c), l₁)) :
    ∃ y, x = c :: y ∧ l₁.Faces text y := by
  obtain ⟨y, rfl, hy, -⟩ := chars_of_nextRune h.rest hn
  obtain ⟨l₂, hn₂, htakes, -⟩ := nextRune_takes h.rest
  rw [hn] at hn₂
  cases hn₂
  obtain ⟨u, htext, hu⟩ := h.position
  refine ⟨y, rfl, ⟨u ++ [c], by simp [htext], ?_⟩, hy⟩
  rw [htakes.position, hu, Position.foldl_afterByte_utf8EncodeChar, Position.behind_concat]

/-- Where a carriage return was passed over, the character is the second of the rest. -/
theorem Faces.nextPastReturn {c : Char} (h : l.Faces text x)
    (hn : l.nextPastReturn = (.ok (some c), l₁)) :
    ∃ y, (x = c :: y ∧ c ≠ '\r' ∨ x = '\r' :: c :: y) ∧ l₁.Faces text y := by
  unfold Lexer.nextPastReturn at hn
  split at hn
  · rename_i l₂ hreturn
    obtain ⟨z, rfl, hz⟩ := h.nextRune hreturn
    obtain ⟨y, rfl, hy⟩ := hz.nextRune hn
    exact ⟨y, .inr rfl, hy⟩
  · rename_i hother
    obtain ⟨y, rfl, hy⟩ := h.nextRune hn
    refine ⟨y, .inl ⟨rfl, ?_⟩, hy⟩
    rintro rfl
    exact hother _ hn

/-- Behind a backslash a newline makes a continuation. -/
theorem pastContinuations_of_newline {c : Char} {y : List Char}
    (hx : x = c :: y ∧ c ≠ '\r' ∨ x = '\r' :: c :: y) (hc : c = '\n') :
    pastContinuations ('\\' :: x) = pastContinuations y := by
  subst hc
  rcases hx with ⟨rfl, -⟩ | rfl
  · rw [pastContinuations]
  · rw [pastContinuations]

/-- Behind a backslash no other character does. -/
theorem pastContinuations_of_backslash {c : Char} {y : List Char}
    (hx : x = c :: y ∧ c ≠ '\r' ∨ x = '\r' :: c :: y) (hc : c ≠ '\n') :
    pastContinuations ('\\' :: x) = '\\' :: x := by
  unfold pastContinuations
  split
  · rename_i heq
    rcases hx with ⟨rfl, -⟩ | rfl <;> simp at heq
    exact absurd heq.1 hc
  · rename_i heq
    rcases hx with ⟨rfl, hreturn⟩ | rfl <;> simp at heq
    · exact absurd heq.1 hreturn
    · exact absurd heq.1 hc
  · rfl

/-- So a word that begins with them is not displaced. -/
theorem not_displaced_of_backslash {c : Char} {y : List Char}
    (hx : x = c :: y ∧ c ≠ '\r' ∨ x = '\r' :: c :: y) (hc : c ≠ '\n') : ¬Displaced ('\\' :: x) := by
  rintro ⟨⟩ <;> rcases hx with ⟨heq, hreturn⟩ | heq <;> cases heq
  · exact hc rfl
  · exact hreturn rfl
  · exact hc rfl

/-! ## Quotes -/

/-- What a dollar sign introduces is no literal, unless quotes follow it. -/
theorem startsAt_of_readExpansion {rest : List Char} {dollar : Position} {c : Char}
    {es : List Element} (h : l.readExpansion dollar c = (.ok (.elements es), l')) :
    StartsAt label text rest es := by
  unfold readExpansion at h
  split at h
  · split at h <;> cases h
    exact ⟨_, [], rfl, nofun⟩
  split at h
  · split at h <;> cases h
    exact ⟨_, [], rfl, nofun⟩
  split at h
  · split at h <;> cases h
    exact ⟨_, [], rfl, nofun⟩
  split at h <;> cases h
  exact ⟨_, [], rfl, nofun⟩

/-- What was gathered inside double quotes: nothing but continuations were read, or there is a first element
and where it begins is settled. -/
inductive QuoteBegins (label : String) (text inner : List Char) (opening : Position) (g : Gathering)
    (l : Lexer Cursor) : Prop
  | blank {x : List Char} (faces : l.Faces text x)
    (continued : pastContinuations inner = pastContinuations x)
    (fresh : g = { draft := { origin := some opening } })
  | begun (starts : g.StartsAt label text (quoteStart inner))

variable {inner : List Char} {opening : Position} {g : Gathering}

/-- A quote that is no dollar sign's own begins its first literal. -/
theorem quoteStart_of_past {c : Char} {y : List Char} (h : pastContinuations inner = c :: y)
    (hc : c ≠ '$') : quoteStart inner = '"' :: inner := by
  rw [quoteStart_eq_iff]
  intro rest heq
  rw [h] at heq
  exact hc (List.cons_eq_cons.mp heq).1

/-- Once it is settled where the first literal begins, nothing changes that. -/
theorem startsAt_of_doubleQuoteStep {rest : List Char} {p : Progress Gathering (List Element)}
    (hlabel : l.filename = label) (h : g.StartsAt label text rest)
    (hr : l.doubleQuoteStep opening g = (.ok p, l')) :
    Keeps (fun g' _ => g'.StartsAt label text rest) (fun es _ => StartsAt label text rest es) p l' := by
  have hsettled : StartsAt label text rest (g.settle l.filename) := hlabel ▸ h.settle
  cases doubleQuoteStep_ok hr with
  | closes =>
    obtain ⟨e, es, hes, he⟩ := hsettled
    refine ⟨e, es, ?_, he⟩
    rw [hes]
    rfl
  | dollar => exact .element (hsettled.append _)
  | bare => exact (Gathering.StartsAt.element hsettled).push _ _
  -- whatever a backslash protects is pushed behind what was gathered, so the settled start stays
  | escapes =>
    show (protect g _ _).StartsAt label text rest
    unfold protect
    split
    · exact h.push _ _
    split
    · exact h
    · exact (h.push _ _).push _ _
  | plain => exact h.push _ _

/-- The first character that is more than a continuation settles it. -/
theorem quoteBegins_of_blank {p : Progress Gathering (List Element)} (hlabel : l.filename = label)
    (ho : opening.Before text ('"' :: inner)) (hfaces : l.Faces text x)
    (hpast : pastContinuations inner = pastContinuations x)
    (hr : l.doubleQuoteStep opening { draft := { origin := some opening } } = (.ok p, l')) :
    Keeps (QuoteBegins label text inner opening)
      (fun es _ => StartsAt label text (quoteStart inner) es) p l' := by
  -- what is pushed before anything else counts from the quote, unless it is a dollar sign
  have hquote {c : Char} {y : List Char} (hx : pastContinuations x = c :: y) (hc : c ≠ '$') :
      opening.Before text (quoteStart inner) := by
    rw [quoteStart_of_past (hpast.trans hx) hc]
    exact ho
  cases doubleQuoteStep_ok hr with
  | closes next =>
    obtain ⟨y, rfl, -⟩ := hfaces.nextRune next
    have hplace : l.place opening = ⟨label, opening⟩ := by rw [Lexer.place, hlabel]
    exact startsAt_literal hplace (hquote (pastContinuations_of_head (by decide) y) (by decide))
  | dollar next read =>
    refine .begun (.element ?_)
    unfold readInnerDollar at read
    split at read
    · cases read
    · cases read
    · exact startsAt_of_readExpansion read
  | bare next read =>
    obtain ⟨y, rfl, -⟩ := hfaces.nextRune next
    refine .begun (Gathering.startsAt_push rfl '$' rfl ?_)
    rw [quoteStart, hpast, pastContinuations_of_head (by decide)]
    exact hfaces.position
  | @escapes c' _ _ next past =>
    obtain ⟨y, rfl, hy⟩ := hfaces.nextRune next
    obtain ⟨z, hz, hfaces'⟩ := hy.nextPastReturn past
    by_cases hnewline : c' = '\n'
    · have hcontinues := pastContinuations_of_newline hz hnewline
      subst hnewline
      exact .blank hfaces' (hpast.trans hcontinues) rfl
    · have hbegins := hquote (pastContinuations_of_backslash hz hnewline) (by decide)
      refine .begun ?_
      unfold protect
      rw [if_neg hnewline]
      split
      · exact Gathering.startsAt_push rfl c' rfl hbegins
      · exact (Gathering.startsAt_push rfl '\\' rfl hbegins).push c' _
  | plain next quote dollar backslash =>
    obtain ⟨y, rfl, -⟩ := hfaces.nextRune next
    have hbegins := hquote (pastContinuations_of_head backslash y) dollar
    exact .begun (Gathering.startsAt_push rfl _ rfl hbegins)

/-- One more character between double quotes. -/
theorem quoteBegins_of_doubleQuoteStep {p : Progress Gathering (List Element)} (hlabel : l.filename = label)
    (ho : opening.Before text ('"' :: inner)) (h : QuoteBegins label text inner opening g l)
    (hr : l.doubleQuoteStep opening g = (.ok p, l')) :
    Keeps (QuoteBegins label text inner opening)
      (fun es _ => StartsAt label text (quoteStart inner) es) p l' := by
  cases h with
  | blank faces continued fresh =>
    subst fresh
    exact quoteBegins_of_blank hlabel ho faces continued hr
  | begun starts =>
    have hstarts := startsAt_of_doubleQuoteStep hlabel starts hr
    cases p with
    | more g' => exact .begun hstarts
    | done es => exact hstarts

/-- The elements of double-quoted text: the first one, if it is a literal, begins at the quote or at a dollar
sign just behind it. -/
theorem startsAt_of_readDoubleQuoted (h : Stands label text l) (hfaces : l.Faces text inner)
    (ho : opening.Before text ('"' :: inner)) (hlt : opening.offset < l.position.offset)
    {es : List Element} (hr : l.readDoubleQuoted opening = (.ok es, l')) :
    StartsAt label text (quoteStart inner) es := by
  -- along the loop, where the lexer stands and where the text that was begun started
  let P (g : Gathering) (l' : Lexer Cursor) := Advances label text l l' ∧
    Gathers label text opening.offset l'.position.offset g ∧ QuoteBegins label text inner opening g l'
  have hopening : opening.Within text := by
    obtain ⟨u, htext, hu⟩ := ho
    exact ⟨u, _, htext, hu⟩
  have hstart : Gathers label text opening.offset l.position.offset
      { draft := { origin := some opening } } := by
    refine ⟨⟨opening.offset, .nil (Nat.le_refl _), Nat.le_of_lt hlt, fun p hp => ?_⟩, by simp⟩
    cases hp
    exact ⟨hopening, Nat.le_refl _, hlt⟩
  have hstep {g : Gathering} {p : Progress Gathering (List Element)} {l₁ l₂ : Lexer Cursor}
      (hP : P g l₁) (hs : doubleQuoteStep opening g l₁ = (.ok p, l₂)) :
      Keeps P (fun es _ => StartsAt label text (quoteStart inner) es) p l₂ := by
    obtain ⟨hl₁, hg, hbegins⟩ := hP
    have hlands := (hl₁.toStands.doubleQuoteStep hopening hg).value hs
    have hkeeps := quoteBegins_of_doubleQuoteStep hl₁.filename ho hbegins hs
    cases p with
    | more g' => exact ⟨hl₁.trans hlands.1, hlands.2, hkeeps⟩
    | done es => exact hkeeps
  obtain ⟨g, l₁, hP, hlast⟩ := iterate_ok (P := P) (fun hP hs => hstep hP hs)
    ⟨.refl h, hstart, .blank hfaces rfl rfl⟩ hr
  exact hstep hP hlast

/-- The first literal behind a dollar sign begins at it, or inside the double quotes that follow it. -/
theorem startsAt_of_readDollar {dollar : Position} {y : List Char} (h : Stands label text l)
    (hfaces : l.Faces text y) (hd : dollar.Before text ('$' :: y)) {es : List Element}
    (hr : l.readDollar dollar = (.ok (.elements es), l')) :
    StartsAt label text (literalStart ('$' :: y)) es := by
  unfold readDollar at hr
  split at hr
  · cases hr
  · cases hr
  rename_i c l₁ hc
  obtain ⟨inner, rfl, hinner⟩ := hfaces.nextRune hc
  obtain ⟨hl₁, hvalue⟩ := h.nextRune.value hc
  split at hr
  · rename_i hquote
    subst hquote
    split at hr <;> cases hr
    rename_i t hansi
    have horigin : t.origin = ⟨label, dollar⟩ := by
      unfold readAnsiCQuoted at hansi
      split at hansi <;> cases hansi
      rw [Lexer.place, hl₁.filename]
    -- with escapes, the literal begins at the dollar sign itself
    have hself : literalStart ('$' :: '\'' :: inner) = '$' :: '\'' :: inner := by
      rw [literalStart_eq_self_iff]
      rintro ⟨⟩
    exact startsAt_literal horigin (hself ▸ hd)
  split at hr
  · rename_i hquote
    subst hquote
    split at hr <;> cases hr
    rename_i hdouble
    rw [literalStart_localized]
    exact startsAt_of_readDoubleQuoted hl₁.toStands hinner hfaces.position (hvalue _ rfl).1 hdouble
  · exact startsAt_of_readExpansion hr

/-- A dollar sign that stands for itself has no double quote behind it. -/
theorem not_displaced_of_readDollar {dollar : Position} {y : List Char} {e : Expansion}
    (hfaces : l.Faces text y) (he : ∀ es, e ≠ .elements es) (hr : l.readDollar dollar = (.ok e, l')) :
    ¬Displaced ('$' :: y) := by
  rintro ⟨⟩
  obtain ⟨l₁, hn, -⟩ := nextRune_encoded hfaces.rest
  unfold readDollar at hr
  simp only [hn, Char.reduceEq, if_false, if_true] at hr
  split at hr <;> cases hr
  exact he _ rfl

/-! ## Words -/

variable {escape : EscapeSet} {commandOpen : Bool} {c : Char}

/-- Within a token its start stays where it is. Only a blank before it moves the start. -/
theorem tokenStart_of_wordRune {p : Progress Gathering (Option Token)} (h : Stands label text l)
    (hl₁ : Advances label text l l₁) (hlt : l.position.offset < l₁.position.offset)
    (hpast : Past text l.position [c] l₁)
    (hblank : role escape c = .blank → g.settle l₁.filename ≠ [])
    (hr : l₁.wordRune escape commandOpen g l.position c = (.ok p, l')) :
    l'.tokenStart = l.tokenStart := by
  have hstands := hl₁.toStands
  have hdollar (meaning : role escape c = .dollar) : Past text l.position ['$'] l₁ := by
    rwa [← show c = '$' from eq_of_role meaning]
  -- reading behind a character never touches the start of the token, so each case is one read
  suffices hkept : l'.tokenStart = l₁.tokenStart from hkept.trans hl₁.tokenStart
  cases wordRune_ok hr with
  | joins => rfl
  | begins => rfl
  | separates _ read => exact ((hstands.readSeparator h.within _ _).value read).tokenStart
  | leads meaning fresh => exact absurd fresh (hblank meaning)
  | ends => rfl
  | continues _ next => exact (hstands.nextPastReturn.value next).tokenStart
  | escapes _ next => exact (hstands.nextPastReturn.value next).tokenStart
  | single _ read => exact ((hstands.readSingleQuoted h.within).value read).1.tokenStart
  | double _ read => exact ((hstands.readDoubleQuoted h.within hlt).value read).1.tokenStart
  | dollar meaning read =>
    exact ((hstands.readDollar h.within hlt (hdollar meaning)).value read).1.tokenStart
  | bare meaning read =>
    exact ((hstands.readDollar h.within hlt (hdollar meaning)).value read).1.tokenStart
  | atEnd meaning read =>
    exact ((hstands.readDollar h.within hlt (hdollar meaning)).value read).1.tokenStart
  | comment _ skipped => exact (hstands.skipComment.value skipped).tokenStart
  | last _ skipped => exact (hstands.skipComment.value skipped).tokenStart

/-- The first element of a word stays what it is. -/
theorem startsAt_of_wordRune {rest : List Char} {here : Position}
    {p : Progress Gathering (Option Token)} (hlabel : l.filename = label)
    (h : g.StartsAt label text rest)
    (hr : l.wordRune escape commandOpen g here c = (.ok p, l')) :
    Keeps (fun g' _ => g'.StartsAt label text rest)
      (fun t _ => ∀ u ∈ t, StartsAt label text rest u.elements) p l' := by
  have hsettled : StartsAt label text rest (g.settle l.filename) := hlabel ▸ h.settle
  -- there is a first element, so no blank or comment is passed over anymore
  have hne : g.settle l.filename ≠ [] := by
    obtain ⟨e, fs, hes, -⟩ := hsettled
    simp [hes]
  have hsame : Gathering.StartsAt label text rest { elements := g.settle l.filename } :=
    .element hsettled
  cases wordRune_ok hr with
  | joins => exact h.push _ _
  | begins => exact hsame.push _ _
  | separates =>
    rintro u ⟨⟩
    exact hsettled.append _
  | leads _ fresh => exact absurd fresh hne
  | ends =>
    rintro u ⟨⟩
    exact hsettled
  | continues => exact hsame
  | escapes => exact hsame.push _ _
  | single => exact .element (hsettled.append _)
  | double => exact .element (hsettled.append _)
  | dollar => exact .element (hsettled.append _)
  | bare => exact hsame.push _ _
  | atEnd =>
    rintro u ⟨⟩
    exact hsettled.append _
  | comment _ _ fresh => exact absurd fresh hne
  | last =>
    intro u hu
    rw [Token.ofElements?_eq_some hu]
    exact hsettled

/-- Single-quoted text begins at its quote. -/
theorem origin_of_readSingleQuoted {opening : Position} {t : Literal}
    (h : l.readSingleQuoted opening = (.ok t, l')) : t.origin = l.place opening := by
  unfold readSingleQuoted at h
  split at h <;> cases h
  rfl

/-- What is known of a word in the making: nothing but continuations were read, or a comment up to the end of
its line, or there is a first element and where it begins is settled. -/
inductive WordBegins (label : String) (text : List Char) (g : Gathering) (l : Lexer Cursor) : Prop
  | blank {word x : List Char} (start : l.tokenStart.Before text word) (faces : l.Faces text x)
    (continued : pastContinuations word = pastContinuations x) (fresh : g = {})
  | comment {x : List Char} (rest : l.input.rest = Utf8.encodeChars ('\n' :: x)) (fresh : g = {})
  | begun {word : List Char} (start : l.tokenStart.Before text word)
    (starts : g.StartsAt label text (literalStart word))

/-- Whether a word, if it is one, begins where its token does. -/
def TokenBegins (label : String) (text : List Char) (t : Option Token) (l : Lexer Cursor) : Prop :=
  ∀ u ∈ t, u.splitSeparator.1.isEmpty = false →
    ∃ word, l.tokenStart.Before text word ∧
      StartsAt label text (literalStart word) u.splitSeparator.1.elements

/-- The separator behind a word is not the first element. -/
theorem startsAt_splitSeparator {rest : List Char} {t : Token}
    (h : StartsAt label text rest t.elements) (hword : t.splitSeparator.1.isEmpty = false) :
    StartsAt label text rest t.splitSeparator.1.elements := by
  unfold Token.splitSeparator at hword ⊢
  split at hword
  · obtain ⟨e, fs, hes, he⟩ := h
    cases fs with
    | nil => simp [Token.isEmpty, hes] at hword
    | cons f fs => exact ⟨e, (f :: fs).dropLast, by simp [hes], he⟩
  · exact h

/-- A separator without a word before it. -/
theorem tokenBegins_separator (s : Separator) (l : Lexer Cursor) :
    TokenBegins label text (some ⟨[.separator s]⟩) l := by
  rintro u ⟨⟩ hword
  simp [Token.splitSeparator, Token.separator?, Element.separator?, Token.isEmpty] at hword

/-- The first character that is more than a blank or a continuation settles where the word begins. -/
theorem wordBegins_of_blank {word y : List Char} {p : Progress Gathering (Option Token)}
    (h : Stands label text l) (hl₁ : Advances label text l l₁)
    (hlt : l.position.offset < l₁.position.offset) (hpast : Past text l.position [c] l₁)
    (hfaces : l.Faces text (c :: y)) (hy : l₁.Faces text y) (hstart : l.tokenStart.Before text word)
    (hcontinued : pastContinuations word = pastContinuations (c :: y))
    (hr : l₁.wordRune .default commandOpen {} l.position c = (.ok p, l')) :
    Keeps (WordBegins label text) (TokenBegins label text) p l' := by
  have hplace : l₁.place l.position = ⟨label, l.position⟩ := by rw [Lexer.place, hl₁.filename]
  have hsame (hblank : role .default c ≠ .blank) : l'.tokenStart.Before text word := by
    rwa [tokenStart_of_wordRune h hl₁ hlt hpast (fun hrole => absurd hrole hblank) hr]
  -- the literal begins at the character unless the word is displaced there
  have hhere (hc : ¬Displaced (c :: y)) : l.position.Before text (literalStart word) := by
    rw [literalStart_congr hcontinued, literalStart_eq_self_iff.mpr hc]
    exact hfaces.position
  have hordinary (hc : ∀ d ∈ ['\\', '"', '$'], c ≠ d) : l.position.Before text (literalStart word) := by
    apply hhere
    intro hdisplaced
    cases hdisplaced <;> exact hc _ (by simp) rfl
  have hspecial : ∀ d ∈ ['\\', '"', '$'], role .default d ≠ .safe ∧ role .default d ≠ .plain := by
    intro d hd
    simp only [List.mem_cons, List.not_mem_nil, or_false] at hd
    rcases hd with rfl | rfl | rfl <;> decide
  cases wordRune_ok hr with
  | joins meaning =>
    refine .begun (hsame (by simp [meaning])) (Gathering.startsAt_push rfl c rfl (hordinary ?_))
    rintro d hd rfl
    exact (hspecial _ hd).1 meaning
  | begins meaning =>
    refine .begun (hsame (by simp [meaning])) (Gathering.startsAt_push rfl c rfl (hordinary ?_))
    rintro d hd rfl
    exact (hspecial _ hd).2 meaning
  | separates => exact tokenBegins_separator _ _
  | leads =>
    -- the word begins behind the blank
    exact .blank hy.position ⟨hy.position, hy.rest⟩ rfl rfl
  | ends _ begun => exact absurd rfl begun
  | continues meaning next =>
    obtain rfl : c = '\\' := eq_of_role meaning
    obtain ⟨z, hz, hfaces'⟩ := hy.nextPastReturn next
    have hnewline := hcontinued.trans (pastContinuations_of_newline hz rfl)
    exact .blank (hsame (by simp [meaning])) hfaces' hnewline rfl
  | escapes meaning next other =>
    obtain rfl : c = '\\' := eq_of_role meaning
    obtain ⟨z, hz, -⟩ := hy.nextPastReturn next
    have hself := hhere (not_displaced_of_backslash hz other)
    exact .begun (hsame (by simp [meaning])) (Gathering.startsAt_push rfl _ rfl hself)
  | single meaning read =>
    obtain rfl : c = '\'' := eq_of_role meaning
    have horigin := origin_of_readSingleQuoted read
    rw [hplace] at horigin
    refine .begun (hsame (by simp [meaning])) (.element ?_)
    exact startsAt_literal horigin (hordinary (by simp))
  | double meaning read =>
    obtain rfl : c = '"' := eq_of_role meaning
    refine .begun (hsame (by simp [meaning])) (.element ?_)
    rw [literalStart_congr hcontinued, literalStart_quote]
    exact startsAt_of_readDoubleQuoted hl₁.toStands hy hfaces.position hlt read
  | dollar meaning read =>
    obtain rfl : c = '$' := eq_of_role meaning
    refine .begun (hsame (by simp [meaning])) (.element ?_)
    rw [literalStart_congr hcontinued]
    exact startsAt_of_readDollar hl₁.toStands hy hfaces.position read
  | bare meaning read =>
    obtain rfl : c = '$' := eq_of_role meaning
    have hself := hhere (not_displaced_of_readDollar hy (by rintro es ⟨⟩) read)
    exact .begun (hsame (by simp [meaning])) (Gathering.startsAt_push rfl '$' rfl hself)
  | atEnd meaning read =>
    obtain rfl : c = '$' := eq_of_role meaning
    have hself := hhere (not_displaced_of_readDollar hy (by rintro es ⟨⟩) read)
    rintro u ⟨⟩ hword
    exact ⟨word, hsame (by simp [meaning]), startsAt_splitSeparator (startsAt_literal hplace hself) hword⟩
  | comment _ skipped =>
    rcases skipComment_chars hy.rest with ⟨cs, z, l₂, rfl, -, hs, htakes⟩ | ⟨-, l₂, hs, -⟩
    · rw [hs] at skipped
      cases skipped
      refine .comment (x := z) (htakes.rest_eq ?_) rfl
      rw [hy.rest, Utf8.encodeChars_append]
    · rw [hs] at skipped
      cases skipped
  | last =>
    -- nothing but a comment is no word
    rintro u ⟨⟩

/-- The newline behind a comment ends the token. -/
theorem tokenBegins_of_newline {p : Progress Gathering (Option Token)} {here : Position}
    (hr : l₁.wordRune .default commandOpen {} here '\n' = (.ok p, l')) :
    Keeps (WordBegins label text) (TokenBegins label text) p l' := by
  have hrole : role .default '\n' = .separator .newline := by decide
  unfold wordRune at hr
  simp only [hrole] at hr
  cases hr
  exact tokenBegins_separator _ _

/-- Once the first element is there, the word goes on or ends. -/
theorem wordBegins_of_begun {word : List Char} {p : Progress Gathering (Option Token)}
    (h : Stands label text l) (hl₁ : Advances label text l l₁)
    (hlt : l.position.offset < l₁.position.offset) (hpast : Past text l.position [c] l₁)
    (hstart : l.tokenStart.Before text word) (hstarts : g.StartsAt label text (literalStart word))
    (hr : l₁.wordRune .default commandOpen g l.position c = (.ok p, l')) :
    Keeps (WordBegins label text) (TokenBegins label text) p l' := by
  have hkeeps := startsAt_of_wordRune hl₁.filename hstarts hr
  have hne : g.settle l₁.filename ≠ [] := by
    obtain ⟨e, fs, hes, -⟩ := hstarts.settle
    rw [hl₁.filename, hes]
    exact List.cons_ne_nil _ _
  rw [← tokenStart_of_wordRune h hl₁ hlt hpast (fun _ => hne) hr] at hstart
  cases p with
  | more g' => exact .begun hstart hkeeps
  | done t =>
    intro u hu hword
    exact ⟨_, hstart, startsAt_splitSeparator (hkeeps u hu) hword⟩

/-- At the end of the input a word ends that was begun. -/
theorem WordBegins.tokenBegins (h : WordBegins label text g l) (hstart : l'.tokenStart = l.tokenStart) :
    TokenBegins label text (Token.ofElements? (g.settle label)) l' := by
  intro u hu hword
  cases h with
  | blank start faces continued fresh =>
    subst fresh
    cases hu
  | comment rest fresh =>
    subst fresh
    cases hu
  | begun start starts =>
    obtain rfl := Token.ofElements?_eq_some hu
    exact ⟨_, hstart ▸ start, startsAt_splitSeparator starts.settle hword⟩

/-- One more character of a word. -/
theorem wordBegins_of_wordStep {p : Progress Gathering (Option Token)} (h : Stands label text l)
    (hbegins : WordBegins label text g l)
    (hr : l.wordStep .default commandOpen g = (.ok p, l')) :
    Keeps (WordBegins label text) (TokenBegins label text) p l' := by
  unfold wordStep at hr
  split at hr
  · cases hr
  · rename_i hn
    cases hr
    rw [h.filename]
    exact hbegins.tokenBegins (h.nextRune.value hn).1.tokenStart
  · rename_i c l₁ hn
    obtain ⟨hl₁, hvalue⟩ := h.nextRune.value hn
    have hlt := (hvalue c rfl).1
    have hpast := (h.past.nextRune hn).1
    -- in front of the word, behind a comment, and within the word
    cases hbegins with
    | blank start faces continued fresh =>
      subst fresh
      obtain ⟨y, rfl, hy⟩ := faces.nextRune hn
      exact wordBegins_of_blank h hl₁ hlt hpast faces hy start continued hr
    | comment rest fresh =>
      subst fresh
      obtain ⟨y, hcons, -⟩ := chars_of_nextRune rest hn
      obtain ⟨rfl, -⟩ := List.cons_eq_cons.mp hcons
      exact tokenBegins_of_newline hr
    | begun start starts => exact wordBegins_of_begun h hl₁ hlt hpast start starts hr

/-- A token begins where its first element does, unless it is displaced. -/
theorem tokenBegins_of_readToken (h : Stands label text l) {t : Option Token}
    (hr : l.readToken .default commandOpen = (.ok t, l')) : TokenBegins label text t l' := by
  let begun : Lexer Cursor := { l with tokenStart := l.position }
  have hbegun : Stands label text begun := ⟨h.filename, h.point, h.within⟩
  let P (g : Gathering) (l' : Lexer Cursor) := Continues label text begun l' ∧
    Gathers label text l'.tokenStart.offset l'.position.offset g ∧ WordBegins label text g l'
  have hstep {g : Gathering} {p : Progress Gathering (Option Token)} {l₁ l₂ : Lexer Cursor}
      (hP : P g l₁) (hs : l₁.wordStep .default commandOpen g = (.ok p, l₂)) :
      Keeps P (TokenBegins label text) p l₂ := by
    obtain ⟨hl₁, hg, hbegins⟩ := hP
    have hlands := (hl₁.toStands.wordStep .default commandOpen hg).value hs
    have hkeeps := wordBegins_of_wordStep hl₁.toStands hbegins hs
    cases p with
    | more g' => exact ⟨hl₁.trans hlands.1, hlands.2, hkeeps⟩
    | done t => exact hkeeps
  obtain ⟨x, hx⟩ := hbegun.faces
  obtain ⟨g, l₁, hP, hlast⟩ := iterate_ok (P := P) (fun hP hs => hstep hP hs)
    ⟨(Advances.refl hbegun).continues, .empty (Nat.le_refl _), .blank hx.position hx rfl rfl⟩ hr
  exact hstep hP hlast

/-! ## Commands -/

/-- Whether the first of some words begins where the location says. -/
def WordsBegin (label : String) (text : List Char) (words : List Token) (location : Location) : Prop :=
  ∃ word first rest, location.filename = label ∧ location.position.Before text word ∧
    words = first :: rest ∧ StartsAt label text (literalStart word) first.elements

/-- What is known of a command in the making. -/
def AssemblyBegins (label : String) (text : List Char) (a : Assembly) : Prop :=
  a.words = [] ∧ a.start = none ∨ ∃ start, a.start = some start ∧ WordsBegin label text a.words start

/-- The first word that is not empty decides where a command begins. -/
theorem AssemblyBegins.add {a : Assembly} (h : AssemblyBegins label text a) {t : Token}
    (hlabel : l.filename = label) (ht : TokenBegins label text (some t) l) :
    AssemblyBegins label text (a.add t.splitSeparator.1 l.startLocation) := by
  unfold Assembly.add
  split
  · exact h
  · rename_i hword
    right
    rcases h with ⟨hwords, hstart⟩ | ⟨start, hstart, word, first, rest, hfilename, hbefore, hwords, hfirst⟩
    · obtain ⟨word, hbefore, hstarts⟩ := ht t rfl (by simpa using hword)
      refine ⟨l.startLocation, by simp [hstart], word, _, [], hlabel, hbefore, ?_, hstarts⟩
      simp [hwords]
    · refine ⟨start, by simp [hstart], word, first, rest ++ [t.splitSeparator.1], hfilename, hbefore, ?_,
        hfirst⟩
      simp [hwords]

/-- One more token of a command. -/
theorem commandBegins_of_commandStep {a : Assembly} {p : Progress Assembly (Option Command)}
    (h : Stands label text l) (ha : AssemblyBegins label text a)
    (hr : l.commandStep .default a = (.ok p, l')) :
    Keeps (fun a' l' => Stands label text l' ∧ AssemblyBegins label text a')
      (fun c _ => ∀ d ∈ c, WordsBegin label text d.tokens d.location) p l' := by
  -- a command that is over has a word, so its start is known
  have hfinish {a : Assembly} {l₁ : Lexer Cursor} {terminator : Option Separator} {c : Option Command}
      (ha : AssemblyBegins label text a) (hwords : a.words ≠ [])
      (hc : l₁.finishCommand a terminator = (.ok (.done c), l')) :
      ∀ d ∈ c, WordsBegin label text d.tokens d.location := by
    rcases ha with ⟨hnone, -⟩ | ⟨start, hstart, hbegin⟩
    · exact absurd hnone hwords
    · cases hc
      rintro d ⟨⟩
      rw [hstart]
      exact hbegin
  unfold commandStep at hr
  split at hr
  · cases hr
  · split at hr
    · cases hr
      exact nofun
    · rename_i hwords
      cases p with
      | more a' => cases hr
      | done c => exact hfinish ha (by simpa using hwords) hr
  · rename_i t l₁ ht
    have hl₁ := ((h.readToken .default (!a.words.isEmpty)).value ht).1
    have hadd := ha.add hl₁.filename (tokenBegins_of_readToken h ht)
    dsimp only at hr
    split at hr
    · cases hr
      exact ⟨hl₁, hadd⟩
    · split at hr
      · cases hr
      · split at hr
        · cases hr
          exact ⟨hl₁.note _, hadd⟩
        · rename_i hwords
          cases p with
          | more a' => cases hr
          | done c => exact hfinish hadd (by simpa using hwords) hr

/-- A command is located where its first word begins. -/
theorem wordsBegin_of_readCommand (h : Stands label text l) {c : Command}
    (hr : l.readCommand .default = (.ok (some c), l')) : WordsBegin label text c.tokens c.location := by
  obtain ⟨a, l₁, ⟨hl₁, ha⟩, hlast⟩ := iterate_ok
    (P := fun a l => Stands label text l ∧ AssemblyBegins label text a)
    (fun hP hs => commandBegins_of_commandStep hP.1 hP.2 hs) ⟨h, .inl ⟨rfl, rfl⟩⟩ hr
  exact commandBegins_of_commandStep hl₁ ha hlast c rfl

end Lexer

/-- A point of a text has one rest behind it. -/
theorem Position.Before.unique {text rest rest' : List Char} {p : Position} (h : p.Before text rest)
    (h' : p.Before text rest') : rest = rest' := by
  obtain ⟨u, rfl, rfl⟩ := h
  obtain ⟨u', htext, hp⟩ := h'
  have hoffset : (Utf8.encodeChars u).length = (Utf8.encodeChars u').length := congrArg Position.offset hp
  have hnil {v w : List Char} (hvw : (Utf8.encodeChars (v ++ w)).length = (Utf8.encodeChars v).length) :
      w = [] := by
    rw [Utf8.encodeChars_append, List.length_append] at hvw
    exact Utf8.encodeChars_eq_nil.mp (List.eq_nil_of_length_eq_zero (by omega))
  rcases List.append_eq_append_iff.mp htext with ⟨w, rfl, rfl⟩ | ⟨w, rfl, rfl⟩
  · rw [hnil hoffset.symm, List.nil_append]
  · rw [hnil hoffset, List.nil_append]

/-- In front of a rest of a text there is one point. -/
theorem Position.Before.eq {text rest : List Char} {p q : Position} (h : p.Before text rest)
    (h' : q.Before text rest) : p = q := by
  obtain ⟨u, rfl, rfl⟩ := h
  obtain ⟨v, htext, rfl⟩ := h'
  rw [List.append_cancel_right htext]

/-- The first element of the first word of a command. -/
def Command.firstElement? (c : Command) : Option Element :=
  c.tokens.head?.bind fun t => t.elements.head?

namespace Parser

variable {label : String}

section

variable {text : List Char} {p : Parser Cursor} {c : Command}

/-- A command that a parser reads is located where its first word begins. -/
theorem wordsBegin_of_readCommandWith (h : p.lexer.Stands label text)
    (hc : (p.readCommandWith .default).1 = .ok (some c)) :
    Lexer.WordsBegin label text c.tokens c.location := by
  obtain ⟨l, hread, -⟩ := readCommandWith_eq_ok.mp (Prod.ext hc rfl)
  exact Lexer.wordsBegin_of_readCommand h hread

/-- A command that was read with the default escape set is located where its first word begins. -/
theorem wordsBegin_of_call (h : p.lexer.Stands label text) (hescape : p.escape = .default) {call : Call}
    (hcall : ∀ escape, call = .readWith escape → escape = .default)
    (hc : (p.call call).1 = .ok (some c)) : Lexer.WordsBegin label text c.tokens c.location := by
  cases call with
  | next =>
    cases hfailed : p.failed with
    | true =>
      rw [call_next_of_failed hfailed] at hc
      cases hc
    | false =>
      rw [call_next_of_not_failed hfailed] at hc
      rw [call, readCommand, hescape] at hc
      exact wordsBegin_of_readCommandWith h hc
  | read =>
    rw [call, readCommand, hescape] at hc
    exact wordsBegin_of_readCommandWith h hc
  | readWith escape =>
    obtain rfl := hcall escape rfl
    exact wordsBegin_of_readCommandWith h hc

/-- A command that a parser answers to some call is located where its first word begins. -/
theorem wordsBegin_of_serve (h : p.lexer.Stands label text) (hescape : p.escape = .default)
    {calls : List Call} {r : Reply} (hr : r ∈ (p.serve calls).1)
    (hcall : ∀ escape, r.call = .readWith escape → escape = .default)
    (hc : r.answer = .ok (some c)) : Lexer.WordsBegin label text c.tokens c.location := by
  induction calls generalizing p with
  | nil => cases hr
  | cons call calls ih =>
    rcases List.mem_cons.mp hr with rfl | hr
    · exact wordsBegin_of_call h hescape hcall hc
    · exact ih (stands_call h call).1 ((escape_call p call).trans hescape) hr

end

/-- In whatever order a text is read, a command that is read with the default escape set is located where its
first word begins, and its first element, if it is a literal, where `literalStart` says. The two places are
the same one if and only if the word is not displaced. -/
theorem origin_of_serve {text : String} {calls : List Call} {r : Reply} {c : Command} {t : Literal}
    (hr : r ∈ ((ofBytes (Utf8.encode text) label .default).serve calls).1)
    (hcall : ∀ escape, r.call = .readWith escape → escape = .default)
    (hc : r.answer = .ok (some c)) (ht : c.firstElement? = some (.literal t)) :
    ∃ word p q, c.location = ⟨label, p⟩ ∧ p.Before text.toList word ∧
      t.origin = ⟨label, q⟩ ∧ q.Before text.toList (literalStart word) ∧
      (t.origin = c.location ↔ ¬Displaced word) := by
  -- the statement is about a reader, and the words are followed on a cursor
  have hserve := (Correspondence.exact_ofReader label).serve_commands
    (Correspondence.parsers_ofBytes (Utf8.encode text) label .default) calls
  have hstart : (ofCursor (Utf8.encode text) label .default).lexer.Stands label text.toList :=
    ⟨rfl, ⟨[], text.toList, rfl, rfl, rfl⟩, ⟨[], text.toList, rfl, rfl⟩⟩
  obtain ⟨word, first, rest, hlabel, hbefore, hwords, e, es, hes, he⟩ :=
    wordsBegin_of_serve hstart rfl (hserve ▸ hr) hcall hc
  have hfirst : c.firstElement? = some e := by simp [Command.firstElement?, hwords, hes]
  obtain ⟨q, horigin, hq⟩ := he t (Option.some.inj (hfirst.symm.trans ht))
  have hlocation : c.location = ⟨label, c.location.position⟩ := by rw [← hlabel]
  refine ⟨word, c.location.position, q, hlocation, hbefore, horigin, hq, ?_⟩
  rw [← literalStart_eq_self_iff, horigin, hlocation]
  constructor
  · intro hsame
    obtain rfl : q = c.location.position := congrArg Location.position hsame
    exact hq.unique hbefore
  · intro hself
    rw [hself] at hq
    rw [hq.eq hbefore]

/-- With a continuation in front of `echo`, the command begins at the backslash and the literal behind the
newline. -/
theorem origin_of_serve_continuation :
    let c : Command := ⟨[⟨[.literal ⟨"echo", ⟨"s", ⟨2, 2, 1⟩⟩⟩]⟩], none, ⟨"s", .start⟩⟩
    let r : Reply := ⟨.next, .ok (some c)⟩
    r ∈ ((ofBytes (Utf8.encode "\\\necho") "s" .default).serve [.next]).1 ∧
      (∀ escape, r.call = .readWith escape → escape = .default) ∧ r.answer = .ok (some c) ∧
      c.firstElement? = some (.literal ⟨"echo", ⟨"s", ⟨2, 2, 1⟩⟩⟩) ∧
      ∃ word p q, c.location = ⟨"s", p⟩ ∧ p.Before "\\\necho".toList word ∧
        (⟨"s", ⟨2, 2, 1⟩⟩ : Location) = ⟨"s", q⟩ ∧ q.Before "\\\necho".toList (literalStart word) ∧
        ((⟨"s", ⟨2, 2, 1⟩⟩ : Location) = c.location ↔ ¬Displaced word) := by
  intro c r
  have hanswer : ((ofBytes (Utf8.encode "\\\necho") "s" .default).call .next).1 = .ok (some c) := by
    decide +kernel
  have hr : r ∈ ((ofBytes (Utf8.encode "\\\necho") "s" .default).serve [.next]).1 := by
    simp only [serve, hanswer]
    exact List.mem_singleton.mpr rfl
  have hcall : ∀ escape, r.call = .readWith escape → escape = .default := by
    rintro escape ⟨⟩
  exact ⟨hr, hcall, rfl, rfl, origin_of_serve hr hcall rfl rfl⟩

/-- In `"$ x"` the command begins at the quote, and its only literal is said to begin at the dollar sign. -/
theorem not_origin_quotedDollar :
    ¬∀ (text : String) (c : Command) (t : Literal),
      .ok c ∈ (ofBytes (Utf8.encode text) "s" .default).items.1 →
      c.firstElement? = some (.literal t) →
      (∀ word, c.location.position.Before text.toList word → ¬['$', '"'] <+: word) →
      t.origin = c.location := by
  intro h
  let t : Literal := ⟨"$ x", ⟨"s", ⟨1, 1, 2⟩⟩⟩
  let c : Command := ⟨[⟨[.literal t]⟩], none, ⟨"s", .start⟩⟩
  have hitems : (ofBytes (Utf8.encode "\"$ x\"") "s" .default).items.1 = [.ok c] := by decide +kernel
  have hstart : Position.start.Before "\"$ x\"".toList "\"$ x\"".toList := ⟨[], rfl, rfl⟩
  refine absurd (h "\"$ x\"" c t (by simp [hitems]) rfl fun word hword => ?_) (by decide)
  rw [hword.unique hstart]
  decide

end Parser

end ShellScript
