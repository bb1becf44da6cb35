import ShellScript.Proofs.Commands
import ShellScript.Proofs.Passages
import ShellScript.Proofs.Spans
import ShellScript.Proofs.Words

/-!
# Where reads end

Between two characters of the text, although quotes and comments are read byte by byte. `Lands` says of a
read that it ends there, or in an error that is placed there; there is one theorem for each read, up to
whole tokens, and with it what is known of the origins of the elements that were read. `Past` keeps the
characters that a read has taken, from which a substitution is known to stand at its origin.
-/

namespace ShellScript

namespace Lexer

/-- A lexer between two characters of a text. -/
structure Stands (label : String) (text : List Char) (l : Lexer Cursor) : Prop where
  filename : l.filename = label
  point : ∃ u x, text = u ++ x ∧ l.position = .behind u ∧ l.input.rest = Utf8.encodeChars x
  start : l.tokenStart.Within text

/-- A lexer that stands further on in a text, within the same token. -/
structure Advances (label : String) (text : List Char) (l l' : Lexer Cursor) : Prop
    extends Stands label text l' where
  forward : l.position.offset ≤ l'.position.offset
  tokenStart : l'.tokenStart = l.tokenStart

/-- A read that fails only with errors that are placed in a text, and then leaves the lexer between two
characters too. -/
inductive Lands {α : Type} (label : String) (text : List Char) (post : α → Lexer Cursor → Prop) :
    Read Cursor α → Prop
  | ok {a l} (value : post a l) : Lands label text post (.ok a, l)
  | error {e l} (placed : ∀ p ∈ e.location?, Placed label text p) (stands : Stands label text l) :
    Lands label text post (.error e, l)

section

variable {label : String} {text : List Char} {l l₁ l₂ : Lexer Cursor}

/-- What is known of a read implies what follows from it. -/
theorem Lands.imp {α : Type} {post post' : α → Lexer Cursor → Prop} {r : Read Cursor α}
    (h : Lands label text post r) (himp : ∀ a l, post a l → post' a l) : Lands label text post' r := by
  cases h with
  | ok value => exact .ok (himp _ _ value)
  | error placed stands => exact .error placed stands

/-- What follows on a read lands if it does so wherever the read may have landed. -/
theorem Lands.andThen {α β : Type} {post : α → Lexer Cursor → Prop} {post' : β → Lexer Cursor → Prop}
    {r : Read Cursor α} {next : α → Lexer Cursor → Read Cursor β} (h : Lands label text post r)
    (hnext : ∀ {a l}, post a l → Lands label text post' (next a l)) :
    Lands label text post' (Lexer.andThen r next) := by
  cases h with
  | ok value => exact hnext value
  | error placed stands => exact .error placed stands

/-- What is known of a read that succeeded. -/
theorem Lands.value {α : Type} {post : α → Lexer Cursor → Prop} {r : Read Cursor α} {a : α}
    (h : Lands label text post r) (hr : r = (.ok a, l)) : post a l := by
  subst hr
  cases h with
  | ok value => exact value

/-- A lexer that stands between two characters has its position there. -/
theorem Stands.within (h : Stands label text l) : l.position.Within text := by
  obtain ⟨u, x, htext, hu, -⟩ := h.point
  exact ⟨u, x, htext, hu⟩

/-- Where the lexer stands is a place in the text. -/
theorem Stands.placed (h : Stands label text l) : Placed label text l.location :=
  ⟨h.filename, h.within⟩

/-- So is any position between two characters. -/
theorem Stands.place {p : Position} (h : Stands label text l) (hp : p.Within text) :
    Placed label text (l.place p) :=
  ⟨h.filename, hp⟩

/-- Noting an event does not move the lexer. -/
theorem Stands.note (h : Stands label text l) (e : Event) : Stands label text (l.note e) :=
  ⟨h.filename, h.point, h.start⟩

/-- An error with a place in the text, from between two characters. -/
theorem Stands.raise {α : Type} {post : α → Lexer Cursor → Prop} {e : ParseError} {p : Location}
    (h : Stands label text l) (he : e.location? = some p) (hp : Placed label text p) :
    Lands label text post (.error e, l) := by
  refine .error (fun q hq => ?_) h
  rw [he] at hq
  cases hq
  exact hp

/-- A lexer may stay where it is. -/
theorem Advances.refl (h : Stands label text l) : Advances label text l l :=
  ⟨h, Nat.le_refl _, rfl⟩

/-- One step forward and another one are a step forward. -/
theorem Advances.trans (h : Advances label text l l₁) (h' : Advances label text l₁ l₂) :
    Advances label text l l₂ :=
  ⟨h'.toStands, Nat.le_trans h.forward h'.forward, h'.tokenStart.trans h.tokenStart⟩

/-- Whole characters of the text lead further on. -/
theorem Stands.advances {u w y : List Char} (h : Stands label text l) (htext : text = u ++ (w ++ y))
    (hu : l.position = .behind u) (hrest : l.input.rest = Utf8.encodeChars (w ++ y))
    (htakes : l.Takes (Utf8.encodeChars w) l') : Advances label text l l' := by
  have hposition : l'.position = .behind (u ++ w) := by
    rw [htakes.position, hu, Position.foldl_afterByte_behind]
  rw [Utf8.encodeChars_append] at hrest
  refine ⟨⟨htakes.filename.trans h.filename, ⟨u ++ w, y, by rw [htext, List.append_assoc],
    hposition, htakes.rest_eq hrest⟩, ?_⟩, ?_, htakes.tokenStart⟩
  · rw [htakes.tokenStart]
    exact h.start
  · rw [hposition, hu]
    simp

/-! ## Characters -/

/-- A character leads forward, and putting it back leads back to where the lexer was. -/
theorem Stands.nextRune (h : Stands label text l) :
    Lands label text (fun c l' => Advances label text l l' ∧ ∀ r, c = some r →
      l.position.offset < l'.position.offset ∧ Advances label text l l'.unreadRune) l.nextRune := by
  obtain ⟨u, x, htext, hu, hx⟩ := h.point
  cases x with
  | nil =>
    obtain ⟨l', hn, htakes⟩ := nextRune_takes_none hx
    rw [hn]
    exact .ok ⟨h.advances (w := []) htext hu hx htakes, by simp⟩
  | cons c y =>
    obtain ⟨l', hn, htakes, hback⟩ := nextRune_takes hx
    have hlength : 0 < (String.utf8EncodeChar c).length := by
      rw [String.length_utf8EncodeChar]
      exact c.utf8Size_pos
    have hoffset : l.position.offset < l'.position.offset := by
      rw [htakes.position, hu, Position.foldl_afterByte_utf8EncodeChar, Position.offset_afterRune]
      omega
    rw [hn]
    refine .ok ⟨?_, fun _ _ => ⟨hoffset, h.advances (w := []) htext hu hx hback⟩⟩
    exact h.advances (w := [c]) htext hu hx (by simpa using htakes)

/-- So does a character behind a carriage return that is passed over. -/
theorem Stands.nextPastReturn (h : Stands label text l) :
    Lands label text (fun _ l' => Advances label text l l') l.nextPastReturn := by
  unfold Lexer.nextPastReturn
  have hn := h.nextRune
  generalize l.nextRune = r at hn ⊢
  cases hn with
  | error placed stands => exact .error placed stands
  | @ok c l₁ value =>
    split
    · rename_i heq
      cases heq
      have hn := value.1.toStands.nextRune
      generalize l₁.nextRune = r at hn ⊢
      cases hn with
      | error placed stands => exact .error placed stands
      | ok value' => exact .ok (value.1.trans value'.1)
    · exact .ok value.1

/-- A lexer behind some characters of a text, the first of which stands at a position. -/
def Past (text : List Char) (p : Position) (w : List Char) (l : Lexer Cursor) : Prop :=
  ∃ u x, text = u ++ (w ++ x) ∧ p = .behind u ∧ l.input.rest = Utf8.encodeChars x

/-- No characters have been taken where the lexer stands. -/
theorem Stands.past (h : Stands label text l) : Past text l.position [] l := by
  obtain ⟨u, x, htext, hu, hx⟩ := h.point
  exact ⟨u, x, htext, hu, hx⟩

/-- A character is one more that was taken, until it is put back. -/
theorem Past.nextRune {p : Position} {w : List Char} {c : Char} (h : Past text p w l)
    (hn : l.nextRune = (.ok (some c), l₁)) : Past text p (w ++ [c]) l₁ ∧ Past text p w l₁.unreadRune := by
  obtain ⟨u, x, htext, hp, hx⟩ := h
  obtain ⟨y, rfl, hy, hback⟩ := chars_of_nextRune hx hn
  exact ⟨⟨u, y, by simp [htext], hp, hy⟩, ⟨u, c :: y, htext, hp, hback⟩⟩

/-- The next character of a text, and what is left behind it. -/
theorem Stands.point_of_nextRune {c : Char} (h : Stands label text l)
    (hn : l.nextRune = (.ok (some c), l₁)) :
    ∃ u y, text = u ++ c :: y ∧ l₁.input.rest = Utf8.encodeChars y := by
  obtain ⟨u, y, htext, -, hy⟩ := (h.past.nextRune hn).1
  exact ⟨u, y, htext, hy⟩

/-! ## Loops -/

/-- What is known of the lexer after a step of a loop. -/
def Keeps {α β : Type} (P : α → Lexer Cursor → Prop) (Q : β → Lexer Cursor → Prop) :
    Progress α β → Lexer Cursor → Prop
  | .more a, l => P a l
  | .done b, l => Q b l

/-- A loop lands where its steps do. -/
theorem iterate_lands {α β : Type} {step : α → Lexer Cursor → Read Cursor (Progress α β)}
    {takes : ∀ {a a' l l'}, step a l = (.ok (.more a'), l') → l'.size < l.size}
    {P : α → Lexer Cursor → Prop} {Q : β → Lexer Cursor → Prop}
    (hstep : ∀ {a l}, P a l → Lands label text (Keeps P Q) (step a l)) {a : α} (ha : P a l) :
    Lands label text Q (iterate step takes a l) := by
  fun_induction iterate step takes a l with
  | case1 a l e l₁ hs =>
    have := hstep ha
    rw [hs] at this
    cases this with
    | error placed stands => exact .error placed stands
  | case2 a l b l₁ hs =>
    have := hstep ha
    rw [hs] at this
    cases this with
    | ok value => exact .ok value
  | case3 a l a' l₁ hs ih =>
    have := hstep ha
    rw [hs] at this
    cases this with
    | ok value => exact ih value

/-- A body leads forward, and one that is not closed fails at the end of the text. -/
theorem Stands.readBody (h : Stands label text l) (pair : Brackets) (construct : String) :
    Lands label text (fun _ l' => Advances label text l l') (l.readBody pair construct) := by
  refine iterate_lands (P := fun _ l' => Advances label text l l') ?_ (.refl h)
  intro state l₁ hl₁
  unfold bodyStep
  have hn := hl₁.toStands.nextRune
  generalize l₁.nextRune = r at hn ⊢
  cases hn with
  | error placed stands => exact .error placed stands
  | @ok c l₂ value =>
    have hl₂ := hl₁.trans value.1
    cases c with
    | none => exact hl₂.toStands.raise rfl hl₂.placed
    | some c =>
      dsimp only
      split
      · exact .ok hl₂
      · exact .ok hl₂

/-- A name leads forward, up to the character behind it, which is put back. -/
theorem Stands.readName (h : Stands label text l) (first : Char) :
    Lands label text (fun _ l' => Advances label text l l') (l.readName first) := by
  refine iterate_lands (P := fun _ l' => Advances label text l l') ?_ (.refl h)
  intro name l₁ hl₁
  unfold nameStep
  have hn := hl₁.toStands.nextRune
  generalize l₁.nextRune = r at hn ⊢
  cases hn with
  | error placed stands => exact .error placed stands
  | @ok c l₂ value =>
    cases c with
    | none => exact .ok (hl₁.trans value.1)
    | some c =>
      dsimp only
      split
      · exact .ok (hl₁.trans value.1)
      · exact .ok (hl₁.trans (value.2 c rfl).2)

/-! ## Parameters and substitutions -/

variable {dollar : Position}

/-- A parameter is refused at the place that it was given. -/
theorem placed_of_ofBody {body : String} {p : Location} {e : ParseError}
    (h : VariableRef.ofBody body p = .error e) : e.location? = some p := by
  unfold VariableRef.ofBody at h
  split at h
  · cases h
    rfl
  · split at h <;> cases h
    rfl

/-- A parameter in braces leads forward, or is refused at its dollar sign. -/
theorem Stands.readBraced (h : Stands label text l) (hd : dollar.Within text) :
    Lands label text (fun _ l' => Advances label text l l') (l.readBraced dollar) := by
  unfold Lexer.readBraced
  have hr := h.readBody .braces "`$\x7b`"
  generalize l.readBody .braces "`$\x7b`" = r at hr ⊢
  cases hr with
  | error placed stands => exact .error placed stands
  | @ok body l₁ value =>
    dsimp only
    cases hv : VariableRef.ofBody body (l.place dollar) with
    | ok v => exact .ok value
    | error e => exact value.toStands.raise (placed_of_ofBody hv) (h.place hd)

/-- The body of a substitution leads forward, and the origin is as given. -/
theorem Stands.readSubstitutionBody (h : Stands label text l) (origin : Location) :
    Lands label text (fun s l' => Advances label text l l' ∧ s.origin = origin)
      (l.readSubstitutionBody origin) := by
  unfold Lexer.readSubstitutionBody
  have hr := h.readBody .parentheses "`$(`"
  generalize l.readBody .parentheses "`$(`" = r at hr ⊢
  cases hr with
  | error placed stands => exact .error placed stands
  | ok value => exact .ok ⟨value, rfl⟩

/-- A substitution leads forward, and remembers its dollar sign. -/
theorem Stands.readSubstitution (h : Stands label text l) (hd : dollar.Within text) :
    Lands label text (fun s l' => Advances label text l l' ∧ s.origin = l.place dollar)
      (l.readSubstitution dollar) := by
  have hplace := h.place hd
  unfold Lexer.readSubstitution
  have hn := h.nextRune
  generalize l.nextRune = r at hn ⊢
  dsimp only
  have hbody {l₁ : Lexer Cursor} (hl₁ : Advances label text l l₁) :
      Lands label text (fun s l' => Advances label text l l' ∧ s.origin = l.place dollar)
        (l₁.readSubstitutionBody (l.place dollar)) :=
    (hl₁.toStands.readSubstitutionBody (l.place dollar)).imp fun _ _ value =>
      ⟨hl₁.trans value.1, value.2⟩
  cases hn with
  | error placed stands => exact .error placed stands
  | @ok c l₁ value =>
    cases c with
    | none => exact hbody value.1
    | some c =>
      dsimp only
      split
      · exact value.1.toStands.raise rfl hplace
      · -- the character that was looked at is put back, and the body begins with it
        exact hbody (value.2 c rfl).2

/-- A substitution stands behind the dollar sign and the parenthesis that were read. -/
theorem standsIn_of_readSubstitution {s : CommandSubstitution} (h : Past text dollar ['$', '('] l)
    (hs : l.readSubstitution dollar = (.ok s, l')) (horigin : s.origin = ⟨label, dollar⟩) :
    s.StandsIn label text := by
  have hbody {l₁ : Lexer Cursor} {origin : Location} (h₁ : Past text dollar ['$', '('] l₁)
      (hs : l₁.readSubstitutionBody origin = (.ok s, l')) : s.StandsIn label text := by
    obtain ⟨u, x, htext, hp, hx⟩ := h₁
    obtain ⟨v, rfl, -⟩ := chars_of_readBody hx (readBody_of_readSubstitutionBody hs)
    exact ⟨u, v, htext, hp ▸ horigin⟩
  unfold Lexer.readSubstitution at hs
  split at hs
  · cases hs
  · rename_i hnone
    exact (readBody_of_none hnone (readBody_of_readSubstitutionBody hs)).elim
  · rename_i c l₁ hn
    split at hs
    · cases hs
    · -- the character that was looked at is put back
      exact hbody (h.nextRune hn).2 hs

/-- The elements of an expansion span a part of the text up to the lexer. -/
def ExpandsFrom (label : String) (text : List Char) (lo : Nat) : Expansion → Lexer Cursor → Prop
  | .elements es, l => Spans label text lo l.position.offset es
  | .bare, _ | .atEnd, _ => True

/-- What a dollar sign introduces, when the character behind it was read. -/
theorem readExpansion_lands (hd : dollar.Within text)
    (hlt : dollar.offset < l.position.offset) {c : Char} (hpast : Past text dollar ['$', c] l₁)
    (hl₁ : Advances label text l l₁) (hback : Advances label text l l₁.unreadRune) :
    Lands label text (fun e l' => Advances label text l l' ∧ ExpandsFrom label text dollar.offset e l')
      (l₁.readExpansion dollar c) := by
  -- references have no origin, so it is enough that they end in order
  have hreference {l' : Lexer Cursor} (hl' : Advances label text l l') (v : VariableRef) :
      Spans label text dollar.offset l'.position.offset [.reference v] :=
    .of_origins_nil (Nat.le_trans (Nat.le_of_lt hlt) hl'.forward) rfl
  unfold Lexer.readExpansion
  split
  · have hr := hl₁.toStands.readBraced hd
    generalize l₁.readBraced dollar = r at hr ⊢
    cases hr with
    | error placed stands => exact .error placed stands
    | @ok v l₂ value =>
      have hl₂ := hl₁.trans value
      exact .ok ⟨hl₂, hreference hl₂ v⟩
  split
  · rename_i hparenthesis
    subst hparenthesis
    have hr := hl₁.toStands.readSubstitution hd
    generalize hs : l₁.readSubstitution dollar = r at hr ⊢
    cases hr with
    | error placed stands => exact .error placed stands
    | @ok s l₂ value =>
      have hl₂ := hl₁.trans value.1
      have horigin : s.origin = ⟨label, dollar⟩ := by
        rw [value.2, Lexer.place, hl₁.filename]
      -- the two characters that were taken and the body show the substitution in the text
      have hstands := standsIn_of_readSubstitution hpast hs horigin
      exact .ok ⟨hl₂, .substitution hstands horigin (Nat.le_refl _)
        (Nat.lt_of_lt_of_le hlt hl₂.forward)⟩
  split
  · have hr := hl₁.toStands.readName c
    generalize l₁.readName c = r at hr ⊢
    cases hr with
    | error placed stands => exact .error placed stands
    | @ok name l₂ value =>
      have hl₂ := hl₁.trans value
      exact .ok ⟨hl₂, hreference hl₂ { name }⟩
  split
  · exact .ok ⟨hl₁, hreference hl₁ _⟩
  · exact .ok ⟨hback, trivial⟩

/-- What a dollar sign introduces between double quotes comes from behind it. -/
theorem Stands.readInnerDollar (h : Stands label text l) (hd : dollar.Within text)
    (hlt : dollar.offset < l.position.offset) (hpast : Past text dollar ['$'] l) :
    Lands label text (fun e l' => Advances label text l l' ∧ ExpandsFrom label text dollar.offset e l')
      (l.readInnerDollar dollar) := by
  unfold Lexer.readInnerDollar
  have hn := h.nextRune
  generalize hc : l.nextRune = r at hn ⊢
  cases hn with
  | error placed stands => exact .error placed stands
  | @ok c l₁ value =>
    cases c with
    | none => exact .ok ⟨value.1, trivial⟩
    | some c => exact readExpansion_lands hd hlt (hpast.nextRune hc).1 value.1 (value.2 c rfl).2

/-! ## Quotes -/

variable {opening : Position}

/-- Raw quotes are read byte by byte, and end between two characters. -/
theorem Stands.readRawQuote (h : Stands label text l) (quote : QuoteKind) (ho : opening.Within text) :
    Lands label text (fun _ l' => Advances label text l l') (l.readRawQuote quote opening) := by
  obtain ⟨u, x, htext, hu, hx⟩ := h.point
  rcases readRawQuote_chars quote opening hx with ⟨cs, y, l', rfl, -, hr, htakes⟩ | ⟨l', hr, htakes⟩
  · rw [hr]
    have hsplit : cs ++ '\'' :: y = cs ++ ['\''] ++ y := by simp
    rw [hsplit] at htext hx
    exact .ok (h.advances htext hu hx htakes)
  · rw [hr]
    have hl' := h.advances (y := []) (by simpa using htext) hu (by simpa using hx) htakes
    exact hl'.toStands.raise rfl (h.place ho)

/-- Single-quoted text leads forward, and its origin is its quote. -/
theorem Stands.readSingleQuoted (h : Stands label text l) (ho : opening.Within text) :
    Lands label text (fun t l' => Advances label text l l' ∧ t.origin = ⟨label, opening⟩)
      (l.readSingleQuoted opening) := by
  unfold Lexer.readSingleQuoted
  have hr := h.readRawQuote .single ho
  generalize l.readRawQuote .single opening = r at hr ⊢
  cases hr with
  | error placed stands => exact .error placed stands
  | ok value => exact .ok ⟨value, by rw [Lexer.place, h.filename]⟩

/-- So does text with escapes, and its origin is the dollar sign. -/
theorem Stands.readAnsiCQuoted (h : Stands label text l) (hd : dollar.Within text) :
    Lands label text (fun t l' => Advances label text l l' ∧ t.origin = ⟨label, dollar⟩)
      (l.readAnsiCQuoted dollar) := by
  unfold Lexer.readAnsiCQuoted
  have hr := h.readRawQuote .ansiC hd
  generalize l.readRawQuote .ansiC dollar = r at hr ⊢
  cases hr with
  | error placed stands => exact .error placed stands
  | ok value => exact .ok ⟨value, by rw [Lexer.place, h.filename]⟩

/-- One more character inside double quotes that opened before it. -/
theorem Stands.doubleQuoteStep (h : Stands label text l) (ho : opening.Within text) {g : Gathering}
    (hg : Gathers label text opening.offset l.position.offset g) :
    Lands label text
      (Keeps (fun g' l' => Advances label text l l' ∧
          Gathers label text opening.offset l'.position.offset g')
        fun es l' => Advances label text l l' ∧
          Spans label text opening.offset l'.position.offset es)
      (l.doubleQuoteStep opening g) := by
  have hopen := h.place ho
  have hsettled : Spans label text opening.offset l.position.offset (g.settle l.filename) := by
    rw [h.filename]
    exact hg.settle
  unfold Lexer.doubleQuoteStep
  dsimp only
  have hn := h.nextRune
  generalize hc : l.nextRune = r at hn ⊢
  cases hn with
  | error placed stands => exact .error placed stands
  | @ok c l₁ value =>
    cases c with
    | none => exact value.1.toStands.raise rfl hopen
    | some c =>
      obtain ⟨hl₁, hvalue⟩ := value
      obtain ⟨hlt, -⟩ := hvalue c rfl
      dsimp only
      split
      · -- the closing quote; if nothing was gathered, the empty literal is placed at the opening one
        refine .ok ⟨hl₁, ?_⟩
        rw [Lexer.place, h.filename]
        exact hg.settle.closeQuotes ho hl₁.forward (Nat.lt_of_le_of_lt hg.le hlt)
      split
      · rename_i hdollar
        subst hdollar
        have hr := hl₁.toStands.readInnerDollar h.within hlt (h.past.nextRune hc).1
        generalize l₁.readInnerDollar l.position = r at hr ⊢
        cases hr with
        | error placed stands => exact .error placed stands
        | @ok e l₂ value =>
          have hl₂ := hl₁.trans value.1
          cases e with
          | elements es => exact .ok ⟨hl₂, .ofElements (hsettled.append value.2)⟩
          | bare =>
            refine .ok ⟨hl₂, (Gathers.ofElements hsettled).push h.within (Nat.le_refl _) ?_ '$'⟩
            exact Nat.lt_of_lt_of_le hlt value.1.forward
          | atEnd => exact hl₂.toStands.raise rfl hopen
      split
      · exact hl₁.toStands.raise rfl (h.place h.within)
      split
      · -- a backslash: what is kept of it and of the next character begins where it stands
        have hr := hl₁.toStands.nextPastReturn
        generalize l₁.nextPastReturn = r at hr ⊢
        cases hr with
        | error placed stands => exact .error placed stands
        | @ok c' l₂ value =>
          cases c' with
          | none => exact (hl₁.trans value).toStands.raise rfl hopen
          | some c' =>
            refine .ok ⟨hl₁.trans value, hg.protect h.within (Nat.le_refl _) ?_ c'⟩
            exact Nat.lt_of_lt_of_le hlt value.forward
      · exact .ok ⟨hl₁, hg.push h.within (Nat.le_refl _) hlt c⟩

/-- What stands between double quotes comes from the opening one, or from behind it. -/
theorem Stands.readDoubleQuoted (h : Stands label text l) (ho : opening.Within text)
    (hlt : opening.offset < l.position.offset) :
    Lands label text (fun es l' => Advances label text l l' ∧
      Spans label text opening.offset l'.position.offset es) (l.readDoubleQuoted opening) := by
  refine iterate_lands (P := fun g l' => Advances label text l l' ∧
    Gathers label text opening.offset l'.position.offset g) ?_ ⟨.refl h, ?_⟩
  · rintro g l₁ ⟨hl₁, hg⟩
    refine (hl₁.toStands.doubleQuoteStep ho hg).imp fun p l₂ value => ?_
    cases p with
    | more g' => exact ⟨hl₁.trans value.1, value.2⟩
    | done es => exact ⟨hl₁.trans value.1, value.2⟩
  · refine ⟨⟨opening.offset, .nil (Nat.le_refl _), Nat.le_of_lt hlt, fun p hp => ?_⟩, by simp⟩
    cases hp
    exact ⟨ho, Nat.le_refl _, hlt⟩

/-! ## Words -/

/-- What a dollar sign introduces outside quotes comes from there, or from the quote behind it. -/
theorem Stands.readDollar (h : Stands label text l) (hd : dollar.Within text)
    (hlt : dollar.offset < l.position.offset) (hpast : Past text dollar ['$'] l) :
    Lands label text (fun e l' => Advances label text l l' ∧ ExpandsFrom label text dollar.offset e l')
      (l.readDollar dollar) := by
  unfold Lexer.readDollar
  have hn := h.nextRune
  generalize hc : l.nextRune = r at hn ⊢
  cases hn with
  | error placed stands => exact .error placed stands
  | @ok c l₁ value =>
    cases c with
    | none => exact .ok ⟨value.1, trivial⟩
    | some c =>
      obtain ⟨hl₁, hvalue⟩ := value
      obtain ⟨hafter, hback⟩ := hvalue c rfl
      dsimp only
      split
      · have hr := hl₁.toStands.readAnsiCQuoted hd
        generalize l₁.readAnsiCQuoted dollar = r at hr ⊢
        cases hr with
        | error placed stands => exact .error placed stands
        | @ok t l₂ value =>
          have hl₂ := hl₁.trans value.1
          refine .ok ⟨hl₂, .literal value.2 hd (Nat.le_refl _) ?_⟩
          exact Nat.lt_of_lt_of_le hlt hl₂.forward
      split
      · -- the quotes open behind the dollar sign
        have hr := hl₁.toStands.readDoubleQuoted h.within hafter
        generalize l₁.readDoubleQuoted l.position = r at hr ⊢
        cases hr with
        | error placed stands => exact .error placed stands
        | @ok es l₂ value =>
          have hl₂ := hl₁.trans value.1
          have hbefore : Spans label text dollar.offset l.position.offset [] := .nil (Nat.le_of_lt hlt)
          exact .ok ⟨hl₂, hbefore.append value.2⟩
      · exact readExpansion_lands hd hlt (hpast.nextRune hc).1 hl₁ hback

/-- A pipe leads at most over the second one. -/
theorem Stands.readPipe (h : Stands label text l) {here : Position} (hhere : here.Within text)
    (hasOperand : Bool) :
    Lands label text (fun _ l' => Advances label text l l') (l.readPipe here hasOperand) := by
  cases hasOperand with
  | false => exact h.raise rfl (h.place hhere)
  | true =>
    obtain ⟨u, x, htext, hu, hx⟩ := h.point
    rcases readPipe_chars here hx with ⟨y, l', rfl, hr, htakes⟩ | ⟨-, hr⟩
    · rw [hr]
      exact .ok (h.advances (w := ['|']) htext hu hx htakes)
    · rw [hr]
      exact .ok (.refl h)

/-- A separator leads no further than its own characters. -/
theorem Stands.readSeparator (h : Stands label text l) {here : Position} (hhere : here.Within text)
    (hasOperand : Bool) (s : Separator) :
    Lands label text (fun _ l' => Advances label text l l') (l.readSeparator here hasOperand s) := by
  unfold Lexer.readSeparator
  split
  · exact h.readPipe hhere hasOperand
  · exact .ok (.refl h)

/-- A comment is skipped byte by byte, and ends between two characters. -/
theorem Stands.skipComment (h : Stands label text l) :
    Lands label text (fun _ l' => Advances label text l l') l.skipComment := by
  obtain ⟨u, x, htext, hu, hx⟩ := h.point
  rcases skipComment_chars hx with ⟨cs, y, l', rfl, -, hs, htakes⟩ | ⟨-, l', hs, htakes⟩
  · rw [hs]
    exact .ok (h.advances htext hu hx htakes)
  · rw [hs]
    exact .ok (h.advances (y := []) (by simpa using htext) hu (by simpa using hx) htakes)

/-- A lexer that stands further on in a text, where a token may have begun since. -/
structure Continues (label : String) (text : List Char) (l l' : Lexer Cursor) : Prop
    extends Stands label text l' where
  forward : l.position.offset ≤ l'.position.offset
  tokenStart : l.tokenStart.offset ≤ l'.tokenStart.offset

/-- Further on in a token is further on in the text. -/
theorem Advances.continues (h : Advances label text l l') : Continues label text l l' :=
  ⟨h.toStands, h.forward, Nat.le_of_eq (congrArg Position.offset h.tokenStart.symm)⟩

/-- One part of the way and another one lead further on. -/
theorem Continues.trans (h : Continues label text l l₁) (h' : Continues label text l₁ l₂) :
    Continues label text l l₂ :=
  ⟨h'.toStands, Nat.le_trans h.forward h'.forward, Nat.le_trans h.tokenStart h'.tokenStart⟩

/-- The elements of a token, if there is one, span the part of the text that it was read from. -/
def TokenSpans (label : String) (text : List Char) (t : Option Token) (l : Lexer Cursor) : Prop :=
  ∀ u ∈ t, Spans label text l.tokenStart.offset l.position.offset u.elements

/-- The token of elements spans what they span. -/
theorem tokenSpans_ofElements? {es : List Element}
    (h : Spans label text l.tokenStart.offset l.position.offset es) :
    TokenSpans label text (Token.ofElements? es) l := by
  intro u hu
  rw [Token.ofElements?_eq_some hu]
  exact h

/-- What a step within a token keeps. -/
def WordSpans (label : String) (text : List Char) (l : Lexer Cursor) :
    Progress Gathering (Option Token) → Lexer Cursor → Prop :=
  Keeps
    (fun g l' => Continues label text l l' ∧
      Gathers label text l'.tokenStart.offset l'.position.offset g)
    (fun t l' => Continues label text l l' ∧ TokenSpans label text t l')

variable {escape : EscapeSet} {commandOpen : Bool} {g : Gathering}

/-- A token goes on with the word that was gathered up to there. -/
theorem Advances.more (h : Advances label text l l')
    (hg : Gathers label text l.tokenStart.offset l'.position.offset g) :
    Lands label text (WordSpans label text l) (.ok (.more g), l') :=
  .ok ⟨h.continues, by rw [h.tokenStart]; exact hg⟩

/-- A token ends with the elements that it has there. -/
theorem Advances.done (h : Advances label text l l') {es : List Element}
    (hes : Spans label text l.tokenStart.offset l'.position.offset es) :
    Lands label text (WordSpans label text l) (.ok (.done (some ⟨es⟩)), l') := by
  refine .ok ⟨h.continues, fun u hu => ?_⟩
  cases hu
  rw [h.tokenStart]
  exact hes

/-- If it has no elements, it was none. -/
theorem Advances.doneOf (h : Advances label text l l') {es : List Element}
    (hes : Spans label text l.tokenStart.offset l'.position.offset es) :
    Lands label text (WordSpans label text l) (.ok (.done (Token.ofElements? es)), l') := by
  refine .ok ⟨h.continues, tokenSpans_ofElements? ?_⟩
  rw [h.tokenStart]
  exact hes

/-- The elements of what stands behind a character span a part of the text up to the lexer. -/
def FollowsFrom (label : String) (text : List Char) (lo : Nat) : Sequel → Lexer Cursor → Prop
  | .expansion e, l => ExpandsFrom label text lo e l
  | _, _ => True

/-- What an unquoted character takes of what stands behind it comes from there. -/
theorem Stands.readSequel (h : Stands label text l) {here : Position} (hhere : here.Within text)
    (hlt : here.offset < l.position.offset) (hasOperand : Bool) {c : Char} (hpast : Past text here [c] l) :
    Lands label text (fun s l' => Advances label text l l' ∧ FollowsFrom label text here.offset s l')
      (l.readSequel escape hasOperand here c) := by
  unfold Lexer.readSequel
  cases hrole : role escape c with
  | safe => exact .ok ⟨.refl h, trivial⟩
  | plain => exact .ok ⟨.refl h, trivial⟩
  | blank => exact .ok ⟨.refl h, trivial⟩
  | separator s => exact (h.readSeparator hhere hasOperand s).andThen fun hl' => .ok ⟨hl', trivial⟩
  | backslash => exact h.nextPastReturn.andThen fun hl' => .ok ⟨hl', trivial⟩
  | singleQuote =>
    refine (h.readSingleQuoted hhere).andThen fun {t l'} ⟨hl', horigin⟩ => .ok ⟨hl', ?_⟩
    exact .literal horigin hhere (Nat.le_refl _) (Nat.lt_of_lt_of_le hlt hl'.forward)
  | doubleQuote => exact (h.readDoubleQuoted hhere hlt).andThen fun hl' => .ok hl'
  | dollar =>
    obtain rfl : c = '$' := eq_of_role hrole
    exact (h.readDollar hhere hlt hpast).andThen fun hl' => .ok hl'
  | comment => exact h.skipComment.andThen fun hl' => .ok ⟨hl', trivial⟩
  | unsupported feature => exact h.raise rfl (h.place hhere)
  | misplaced => exact h.raise rfl (h.place hhere)

/-- What an unquoted character comes to, when it was read and what stands behind it too. -/
theorem act_lands (h : Stands label text l) (hl₁ : Advances label text l l₁)
    (hlt : l.position.offset < l₁.position.offset)
    (hg : Gathers label text l.tokenStart.offset l.position.offset g) (c : Char) {sequel : Sequel}
    (hl₂ : Advances label text l₁ l₂) (hsequel : FollowsFrom label text l.position.offset sequel l₂) :
    Lands label text (WordSpans label text l) (l₂.act escape label g l.position c sequel) := by
  have hsettled := hg.settle
  have hl := hl₁.trans hl₂
  have hafter := Nat.lt_of_lt_of_le hlt hl₂.forward
  unfold Lexer.act
  dsimp only
  generalize g.settle label = es at hsettled ⊢
  -- text that starts at the character, and the elements before it
  have htext (d : Char) : Gathers label text l.tokenStart.offset l₂.position.offset
      (Gathering.push { elements := es } d l.position) :=
    (Gathers.ofElements hsettled).push h.within (Nat.le_refl _) hafter d
  have hbefore : Spans label text l.tokenStart.offset l₂.position.offset es := hsettled.mono hl.forward
  cases sequel with
  | nothing =>
    dsimp only
    cases role escape c with
    | safe => exact hl.more (hg.push h.within (Nat.le_refl _) hafter c)
    | blank =>
      dsimp only
      split
      · refine .ok ⟨⟨⟨hl.filename, hl.point, hl.within⟩, hl.forward, ?_⟩, .empty (Nat.le_refl _)⟩
        exact Nat.le_trans hg.le hl.forward
      · exact hl.done hbefore
    | _ => exact hl.more (htext c)
  | separator s => exact hl.done (hbefore.append (.of_origins_nil (Nat.le_refl _) rfl))
  | escaped d =>
    cases d with
    | none => exact hl.toStands.raise rfl hl.placed
    | some d =>
      dsimp only
      split
      · exact hl.more (.ofElements hbefore)
      · exact hl.more (htext d)
  | expansion e =>
    cases e with
    | elements parts => exact hl.more (.ofElements (hsettled.append hsequel))
    | bare => exact hl.more (htext '$')
    | atEnd => exact hl.done (hsettled.append (.literal rfl h.within (Nat.le_refl _) hafter))
  | comment found =>
    dsimp only
    split
    · exact hl.more (.empty (Nat.le_trans hg.le hl.forward))
    · exact hl.doneOf hbefore

/-- What an unquoted character does, when it was read. -/
theorem wordRune_lands (h : Stands label text l) (hl₁ : Advances label text l l₁)
    (hlt : l.position.offset < l₁.position.offset)
    (hg : Gathers label text l.tokenStart.offset l.position.offset g) {c : Char}
    (hpast : Past text l.position [c] l₁) :
    Lands label text (WordSpans label text l) (l₁.wordRune escape commandOpen g l.position c) := by
  rw [wordRune_eq, hl₁.filename]
  exact (hl₁.toStands.readSequel h.within hlt _ hpast).andThen fun ⟨hl₂, hsequel⟩ =>
    act_lands h hl₁ hlt hg c hl₂ hsequel

/-- A step within a token leads forward in the text, and what was gathered comes from behind the start of the
token. -/
theorem Stands.wordStep (h : Stands label text l) (escape : EscapeSet) (commandOpen : Bool)
    (hg : Gathers label text l.tokenStart.offset l.position.offset g) :
    Lands label text (WordSpans label text l) (Lexer.wordStep escape commandOpen g l) := by
  unfold Lexer.wordStep
  have hn := h.nextRune
  generalize hc : l.nextRune = r at hn ⊢
  cases hn with
  | error placed stands => exact .error placed stands
  | @ok c l₁ value =>
    cases c with
    | none =>
      refine value.1.doneOf ?_
      rw [h.filename]
      exact hg.settle.mono value.1.forward
    | some c => exact wordRune_lands h value.1 (value.2 c rfl).1 hg (h.past.nextRune hc).1

/-- A token begins and comes from behind where the lexer stood. -/
theorem Stands.readToken (h : Stands label text l) (escape : EscapeSet) (commandOpen : Bool) :
    Lands label text (fun t l' => Stands label text l' ∧
        l.position.offset ≤ l'.tokenStart.offset ∧ l.position.offset ≤ l'.position.offset ∧
        TokenSpans label text t l')
      (l.readToken escape commandOpen) := by
  let begun : Lexer Cursor := { l with tokenStart := l.position }
  have hbegun : Stands label text begun := ⟨h.filename, h.point, h.within⟩
  refine (iterate_lands (P := fun g l' => Continues label text begun l' ∧
      Gathers label text l'.tokenStart.offset l'.position.offset g)
    (Q := fun t l' => Continues label text begun l' ∧ TokenSpans label text t l') ?_ ?_).imp ?_
  · rintro g l₁ ⟨hl₁, hg⟩
    refine (hl₁.toStands.wordStep escape commandOpen hg).imp fun p l₂ value => ?_
    cases p with
    | more g' => exact ⟨hl₁.trans value.1, value.2⟩
    | done t => exact ⟨hl₁.trans value.1, value.2⟩
  · exact ⟨(Advances.refl hbegun).continues, .empty (Nat.le_refl _)⟩
  · rintro t l' ⟨hl', ht⟩
    exact ⟨hl'.toStands, hl'.tokenStart, hl'.forward, ht⟩

end

end Lexer

end ShellScript
