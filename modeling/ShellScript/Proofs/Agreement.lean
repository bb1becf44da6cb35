import ShellScript.Proofs.Correspondence
import ShellScript.Proofs.Steps

/-!
# Lexers on corresponding inputs

Every read of a lexer, up to whole commands, agrees on corresponding inputs. There is one theorem for each
read: it states how the two answers are related, and what the left answer may be if the left input was
over too soon. `Sim.readToken` and `Aligned.readCommand` are the results that others build on.
-/

namespace ShellScript

/-- Settling adds text, not a separator. -/
theorem Gathering.settle_plain {g : Gathering} (h : ∀ e ∈ g.elements, e.separator? = none)
    (filename : String) : ∀ e ∈ g.settle filename, e.separator? = none := by
  unfold Gathering.settle
  split
  · exact h
  · intro e he
    rcases List.mem_append.mp he with he | he
    · exact h e he
    · rw [List.mem_singleton.mp he]
      rfl

/-- A token of elements that are no separators ends in none. -/
theorem Token.separator?_of_plain {es : List Element} (h : ∀ e ∈ es, e.separator? = none) :
    (Token.mk es).separator? = none := by
  unfold Token.separator?
  cases hl : es.getLast? with
  | none => rfl
  | some e => exact h e (List.mem_of_getLast? hl)

/-- A separator is the last element of its token. -/
theorem Token.separator?_of_separator (es : List Element) (s : Separator) :
    (Token.mk (es ++ [.separator s])).separator? = some s := by
  simp [Token.separator?, Element.separator?]

/-- Elements make a token as soon as there is one. -/
theorem Token.ofElements?_of_ne_nil {es : List Element} (h : es ≠ []) :
    Token.ofElements? es = some ⟨es⟩ := by
  cases es with
  | nil => exact (h rfl).elim
  | cons e es => rfl

/-- Splitting finds the separator that the token ends in. -/
theorem Token.splitSeparator_snd (t : Token) : t.splitSeparator.2 = t.separator? := by
  unfold Token.splitSeparator
  cases t.separator? <;> rfl

/-- The token that elements make has just these elements. -/
theorem Token.ofElements?_eq_some {es : List Element} {t : Token}
    (h : Token.ofElements? es = some t) : t = ⟨es⟩ := by
  cases es with
  | nil => cases h
  | cons e es => exact (Option.some.inj h).symm

namespace Relocation

variable (φ : Relocation)

/-- Elements of a word that moved. -/
def Moved (es es' : List Element) : Prop :=
  es' = es.map φ.element ∧ ∀ e ∈ es, e.separator? = none

/-- Words in the making that moved. Text has an origin, which is what lets it move. -/
structure Gathered (g g' : Gathering) : Prop where
  elements : φ.Moved g.elements g'.elements
  text : g'.draft.text = g.draft.text
  origin : g'.draft.origin = g.draft.origin.map φ.position
  placed : g.draft.text.isEmpty = false → g.draft.origin.isSome

/-- Expansions that moved. -/
inductive Expanded : Lexer.Expansion → Lexer.Expansion → Prop
  | elements {es es'} (moved : φ.Moved es es') : Expanded (.elements es) (.elements es')
  | bare : Expanded .bare .bare
  | atEnd : Expanded .atEnd .atEnd

/-- What stands behind an unquoted character, and the same where it moved. -/
inductive Followed : Lexer.Sequel → Lexer.Sequel → Prop
  | nothing : Followed .nothing .nothing
  | separator (s : Separator) : Followed (.separator s) (.separator s)
  | escaped (c : Option Char) : Followed (.escaped c) (.escaped c)
  | expansion {e e'} (expanded : φ.Expanded e e') : Followed (.expansion e) (.expansion e')
  | comment (found : Bool) : Followed (.comment found) (.comment found)

variable {φ}

/-- No elements have moved. -/
theorem Moved.nil : φ.Moved [] [] := ⟨rfl, by simp⟩

/-- Elements that moved may stand behind others that moved. -/
theorem Moved.append {es es' fs fs' : List Element} (h : φ.Moved es es') (h' : φ.Moved fs fs') :
    φ.Moved (es ++ fs) (es' ++ fs') := by
  refine ⟨by rw [h.1, h'.1, List.map_append], fun e he => ?_⟩
  rcases List.mem_append.mp he with he | he
  · exact h.2 e he
  · exact h'.2 e he

/-- One element that is not a separator is a word. -/
theorem Moved.singleton {e : Element} (h : e.separator? = none) : φ.Moved [e] [φ.element e] :=
  ⟨rfl, by simpa using h⟩

/-- Whether there is a word does not depend on where it stands. -/
theorem Moved.isEmpty_eq {es es' : List Element} (h : φ.Moved es es') :
    es'.isEmpty = es.isEmpty := by
  rw [h.1, List.isEmpty_map]

/-- A token begins with nothing. -/
theorem Gathered.empty : φ.Gathered {} {} := ⟨.nil, rfl, rfl, by simp⟩

/-- No text is begun behind complete elements. -/
theorem Gathered.ofElements {es es' : List Element} (h : φ.Moved es es') :
    φ.Gathered { elements := es } { elements := es' } :=
  ⟨h, rfl, rfl, by simp⟩

/-- A character comes from corresponding positions, which matters only if it begins the text. -/
theorem Gathered.push {g g' : Gathering} (h : φ.Gathered g g') (c : Char) (p : Position) :
    φ.Gathered (g.push c p) (g'.push c (φ.position p)) := by
  refine ⟨h.elements, ?_, ?_, fun _ => rfl⟩
  · simp only [Gathering.push, Draft.push, h.text]
  · simp only [Gathering.push, Draft.push, h.origin]
    cases g.draft.origin <;> rfl

/-- Text that moved is over where it was over. -/
theorem Gathered.settle {g g' : Gathering} (h : φ.Gathered g g') (filename : String) :
    φ.Moved (g.settle filename) (g'.settle filename) := by
  unfold Gathering.settle
  rw [h.text]
  cases he : g.draft.text.isEmpty with
  | true => exact h.elements
  | false =>
    obtain ⟨p, hp⟩ := Option.isSome_iff_exists.mp (h.placed he)
    rw [h.origin, hp]
    exact h.elements.append (.singleton rfl)

/-- Elements that moved make a token that moved. -/
theorem ofElements?_map (es : List Element) :
    Token.ofElements? (es.map φ.element) = (Token.ofElements? es).map φ.token := by
  cases es <;> rfl

/-- A backslash between double quotes keeps the same characters. -/
theorem Gathered.protect {g g' : Gathering} (h : φ.Gathered g g') (c : Char) (p : Position) :
    φ.Gathered (Lexer.protect g c p) (Lexer.protect g' c (φ.position p)) := by
  unfold Lexer.protect
  split
  · exact h.push c p
  · split
    · exact h
    · exact (h.push '\\' p).push c p

/-- Empty quotes are an empty literal at the opening quote, wherever that stands. -/
theorem Moved.closeQuotes {es es' : List Element} (h : φ.Moved es es') (opening : Location) :
    φ.Moved (Lexer.closeQuotes opening es) (Lexer.closeQuotes (φ.location opening) es') := by
  obtain ⟨rfl, hp⟩ := h
  cases es with
  | nil => exact .singleton rfl
  | cons e es => exact ⟨rfl, hp⟩

end Relocation

namespace Correspondence

open Lexer

variable {σ τ : Type} [Input σ] [Input τ] {K : Correspondence σ τ}
variable {α α' : Type} {l : Lexer σ} {m : Lexer τ}

/-- After a word a pipe is one of the two pipes, whatever comes next. -/
theorem readPipe_of_hasOperand (here : Position) (l : Lexer σ) :
    ∃ s l', l.readPipe here true = (.ok s, l') ∧ s.endsCommand = false := by
  rcases hp : Input.peekByte l.input with ⟨r, s⟩
  simp only [Lexer.readPipe, Lexer.peekByte, hp, Lexer.lift]
  rcases r with e | _ | b
  · exact ⟨_, _, rfl, rfl⟩
  · exact ⟨_, _, rfl, rfl⟩
  · by_cases hb : b = 0x7C
    · subst hb
      obtain ⟨s₂, hs₂⟩ := Input.nextByte_of_peekByte hp
      simp only [Lexer.nextByte, hs₂, Lexer.lift]
      exact ⟨_, _, rfl, rfl⟩
    · simp [hb, Separator.endsCommand]

/-- What a braced body comes to does not depend on where it stands. -/
theorem ofBody_location (φ : Relocation) (body : String) (p : Location) :
    VariableRef.ofBody body (φ.location p) =
      match VariableRef.ofBody body p with
      | .ok v => .ok v
      | .error e => .error (φ.error e) := by
  unfold VariableRef.ofBody
  split
  · rfl
  · split <;> rfl

/-- A body is not closed where the left input is over. -/
theorem readBody_of_stop (pair : Brackets) (construct : String) (h : K.stop l.input) :
    ∃ e l', l.readBody pair construct = (.error e, l') ∧ K.stop l'.input ∧
      e.endsEarly = true := by
  obtain ⟨l', hl, hs, -⟩ := nextRune_of_stop h
  refine ⟨.unexpectedEof construct l'.location, l', ?_, hs, rfl⟩
  rw [Lexer.readBody, iterate_eq]
  simp only [Lexer.bodyStep, hl]

/-- Reads that agree still do with what follows on their answers, if that agrees. -/
theorem Agree.andThen {β β' : Type} {v : α → α' → Prop} {o : α → Except ParseError α' → Prop}
    {w : β → β' → Prop} {o' : β → Except ParseError β' → Prop} {x : Read σ α} {y : Read τ α'}
    (h : K.Agree v o x y) {next : α → Lexer σ → Read σ β} {next' : α' → Lexer τ → Read τ β'}
    (hok : ∀ {a b l m}, v a b → K.Sim l m → K.Agree w o' (next a l) (next' b m))
    (hcut : ∀ {a l}, K.stop l.input → o a y.1 → K.Agree w o' (next a l) (Lexer.andThen y next')) :
    K.Agree w o' (Lexer.andThen x next) (Lexer.andThen y next') := by
  cases h with
  | ok value sim => exact hok value sim
  | error sim => exact .error sim
  | cut stopped value => exact hcut stopped value
  | broken stopped cause => exact .broken stopped cause
  | piped stopped => exact .piped stopped

namespace Sim

/-! ## Characters and bodies -/

/-- A carriage return is passed over on both sides, even as the last character of the left input. -/
theorem nextPastReturn (h : K.Sim l m) :
    K.Agree Eq (fun a _ => a = none) l.nextPastReturn m.nextPastReturn := by
  unfold Lexer.nextPastReturn
  have hr := h.nextRune
  generalize hx : l.nextRune = x at hr ⊢
  generalize hy : m.nextRune = y at hr ⊢
  apply hr.bind (fun _ _ => rfl) (fun _ _ => rfl)
  · rintro c - l₁ m₁ - - rfl sim
    by_cases hc : c = some '\r'
    · subst hc
      exact sim.nextRune
    · split
      · simp_all
      · split
        · simp_all
        · exact .ok rfl sim
  · rintro - l₁ stopped rfl
    exact .cut stopped rfl

/-- A step of a body. Before the closing bracket, the end of the input is an error. -/
theorem bodyStep (pair : Brackets) (construct : String) (state : Nesting × String)
    (h : K.Sim l m) :
    K.Agree (Progressed Eq Eq) (Stalled (fun _ => False) fun _ _ => False)
      (Lexer.bodyStep pair construct state l) (Lexer.bodyStep pair construct state m) := by
  unfold Lexer.bodyStep
  have hr := h.nextRune
  generalize hx : l.nextRune = x at hr ⊢
  generalize hy : m.nextRune = y at hr ⊢
  apply hr.bind (fun _ _ => rfl) (fun _ _ => rfl)
  · rintro c - l₁ m₁ - - rfl sim
    cases c with
    | none => exact .error_of_eq sim (by rw [sim.location]; rfl)
    | some c =>
      dsimp only
      cases state.1.feed pair c with
      | none => exact .ok (.done rfl) sim
      | some nesting => exact .ok (.more rfl) sim
  · rintro - l₁ stopped rfl
    exact .broken stopped rfl

/-- A body is the same on both sides. At the end of the left input it is not closed, so it fails there. -/
theorem readBody (pair : Brackets) (construct : String) (h : K.Sim l m) :
    K.Agree Eq (fun _ _ => False) (Lexer.readBody pair construct l)
      (Lexer.readBody pair construct m) := by
  refine iterate_agree (o := fun _ => False) ?_ (fun _ _ h _ => h.elim) rfl h
  rintro state - l m rfl h
  exact h.bodyStep pair construct state

/-! ## Parameters and substitutions -/

/-- A step of a name. At the end of the left input it is over, and the right one may go on. -/
theorem nameStep (name : String) (h : K.Sim l m) :
    K.Agree (Progressed Eq Eq) (Stalled (fun _ => False) fun _ _ => True)
      (Lexer.nameStep name l) (Lexer.nameStep name m) := by
  unfold Lexer.nameStep
  have hr := h.nextRune
  generalize hx : l.nextRune = x at hr ⊢
  generalize hy : m.nextRune = y at hr ⊢
  apply hr.bind (fun _ _ => rfl) (fun _ _ => rfl)
  · rintro c c' l₁ m₁ hl hm rfl sim
    cases c with
    | none => exact .ok (.done rfl) sim
    | some c =>
      dsimp only
      split
      · exact .ok (.more rfl) sim
      · exact .ok (.done rfl) (h.unreadRune (hx.trans hl) (hy.trans hm) sim)
  · rintro - l₁ stopped rfl
    exact .cut stopped (stalled_done (fun _ => trivial) _)

/-- A name may go on where the left input is over. -/
theorem readName (first : Char) (h : K.Sim l m) :
    K.Agree Eq (fun _ _ => True) (Lexer.readName first l) (Lexer.readName first m) := by
  refine iterate_agree (o := fun _ => False) ?_ (fun _ _ h _ => h.elim) rfl h
  rintro name - l m rfl h
  exact h.nameStep name

/-- A parameter in braces is the same, or refused in the same way at its dollar sign. -/
theorem readBraced (dollar : Position) (h : K.Sim l m) :
    K.Agree Eq (fun _ _ => False) (Lexer.readBraced dollar l)
      (Lexer.readBraced (K.relocation.position dollar) m) := by
  unfold Lexer.readBraced
  have hr := h.readBody .braces "`$\x7b`"
  generalize Lexer.readBody .braces "`$\x7b`" l = x at hr ⊢
  generalize Lexer.readBody .braces "`$\x7b`" m = y at hr ⊢
  apply hr.bind_ok (fun _ _ => rfl) (fun _ _ => rfl)
  rintro body - l₁ m₁ rfl sim
  dsimp only
  rw [h.place, ofBody_location]
  cases VariableRef.ofBody body (l.place dollar) with
  | ok v => exact .ok rfl sim
  | error e => exact .error sim

/-- A substitution has the same source, and an origin that moved. -/
theorem readSubstitutionBody (origin : Location) (h : K.Sim l m) :
    K.Agree (fun s s' => s' = K.relocation.substitution s) (fun _ _ => False)
      (Lexer.readSubstitutionBody origin l)
      (Lexer.readSubstitutionBody (K.relocation.location origin) m) := by
  unfold Lexer.readSubstitutionBody
  have hr := h.readBody .parentheses "`$(`"
  generalize Lexer.readBody .parentheses "`$(`" l = x at hr ⊢
  generalize Lexer.readBody .parentheses "`$(`" m = y at hr ⊢
  apply hr.bind_ok (fun _ _ => rfl) (fun _ _ => rfl)
  rintro source - l₁ m₁ rfl sim
  exact .ok rfl sim

/-- The character that is looked at for arithmetic is put back on both sides. -/
theorem readSubstitution (dollar : Position) (h : K.Sim l m) :
    K.Agree (fun s s' => s' = K.relocation.substitution s) (fun _ _ => False)
      (Lexer.readSubstitution dollar l)
      (Lexer.readSubstitution (K.relocation.position dollar) m) := by
  unfold Lexer.readSubstitution
  rw [h.place]
  have hr := h.nextRune
  generalize hx : l.nextRune = x at hr ⊢
  generalize hy : m.nextRune = y at hr ⊢
  dsimp only
  apply hr.bind (fun _ _ => rfl) (fun _ _ => rfl)
  · rintro c c' l₁ m₁ hl hm rfl sim
    cases c with
    | none => exact sim.readSubstitutionBody _
    | some c =>
      dsimp only
      split
      · exact .error_of_eq sim rfl
      · exact (h.unreadRune (hx.trans hl) (hy.trans hm) sim).readSubstitutionBody _
  -- the left input ends behind the bracket, so its body is never closed
  · rintro - l₁ stopped rfl
    obtain ⟨e, l₂, hb, hs, he⟩ := readBody_of_stop .parentheses "`$(`" stopped
    simp only [Lexer.readSubstitutionBody, hb]
    exact .broken hs he

/-- An expansion that the left input leaves open is a dollar sign at its end or a name. -/
def OpenExpansion (e : Expansion) : Prop :=
  e = .atEnd ∨ ∃ name, e = .elements [.reference { name }]

/-- What a dollar sign introduces, when the character behind it was read on both sides. -/
theorem readExpansion (dollar : Position) {c : Char} {l₁ : Lexer σ} {m₁ : Lexer τ} (h : K.Sim l m)
    (hl : l.nextRune = (.ok (some c), l₁)) (hm : m.nextRune = (.ok (some c), m₁))
    (sim : K.Sim l₁ m₁) :
    K.Agree K.relocation.Expanded (fun e _ => OpenExpansion e) (Lexer.readExpansion dollar c l₁)
      (Lexer.readExpansion (K.relocation.position dollar) c m₁) := by
  unfold Lexer.readExpansion
  split
  · have hr := sim.readBraced dollar
    generalize Lexer.readBraced dollar l₁ = x at hr ⊢
    generalize Lexer.readBraced (K.relocation.position dollar) m₁ = y at hr ⊢
    apply hr.bind_ok (fun _ _ => rfl) (fun _ _ => rfl)
    rintro v - l₂ m₂ rfl sim
    exact .ok (.elements (.singleton rfl)) sim
  · split
    · have hr := sim.readSubstitution dollar
      generalize Lexer.readSubstitution dollar l₁ = x at hr ⊢
      generalize Lexer.readSubstitution (K.relocation.position dollar) m₁ = y at hr ⊢
      apply hr.bind_ok (fun _ _ => rfl) (fun _ _ => rfl)
      rintro s - l₂ m₂ rfl sim
      exact .ok (.elements (.singleton rfl)) sim
    · split
      · have hr := sim.readName c
        generalize Lexer.readName c l₁ = x at hr ⊢
        generalize Lexer.readName c m₁ = y at hr ⊢
        apply hr.bind (fun _ _ => rfl) (fun _ _ => rfl)
        · rintro name - l₂ m₂ - - rfl sim
          exact .ok (.elements (.singleton rfl)) sim
        · rintro name l₂ stopped -
          exact .cut stopped (.inr ⟨name, rfl⟩)
      · split
        · exact .ok (.elements (.singleton rfl)) sim
        -- a bare dollar sign: both sides put the character back
        · exact .ok .bare (h.unreadRune hl hm sim)

/-- What a dollar sign introduces between double quotes. -/
theorem readInnerDollar (dollar : Position) (h : K.Sim l m) :
    K.Agree K.relocation.Expanded (fun e _ => OpenExpansion e) (Lexer.readInnerDollar dollar l)
      (Lexer.readInnerDollar (K.relocation.position dollar) m) := by
  unfold Lexer.readInnerDollar
  have hr := h.nextRune
  generalize hx : l.nextRune = x at hr ⊢
  generalize hy : m.nextRune = y at hr ⊢
  apply hr.bind (fun _ _ => rfl) (fun _ _ => rfl)
  · rintro c c' l₁ m₁ hl hm rfl sim
    cases c with
    | none => exact .ok .atEnd sim
    | some c => exact h.readExpansion dollar (hx.trans hl) (hy.trans hm) sim
  · rintro - l₁ stopped rfl
    exact .cut stopped (.inl rfl)

/-! ## Quotes -/

/-- A step of a raw quote, which takes bytes and not characters. -/
theorem rawQuoteStep (quote : QuoteKind) (opening : Position) (bytes : List UInt8)
    (h : K.Sim l m) :
    K.Agree (Progressed Eq Eq) (Stalled (fun _ => False) fun _ _ => False)
      (Lexer.rawQuoteStep quote opening bytes l)
      (Lexer.rawQuoteStep quote (K.relocation.position opening) bytes m) := by
  unfold Lexer.rawQuoteStep
  have hr := h.nextByte
  generalize l.nextByte = x at hr ⊢
  generalize m.nextByte = y at hr ⊢
  apply hr.bind (fun _ _ => rfl) (fun _ _ => rfl)
  · rintro b - l₁ m₁ - - rfl sim
    cases b with
    | none => exact .error_of_eq sim (by rw [h.place]; rfl)
    | some b =>
      dsimp only
      split
      · exact .ok (.done rfl) sim
      · exact .ok (.more rfl) sim
  · rintro - l₁ stopped rfl
    exact .broken stopped rfl

/-- The bytes of a raw quote. The left input is not over before the quote closes, unless it fails. -/
theorem readRawQuote (quote : QuoteKind) (opening : Position) (h : K.Sim l m) :
    K.Agree Eq (fun _ _ => False) (Lexer.readRawQuote quote opening l)
      (Lexer.readRawQuote quote (K.relocation.position opening) m) := by
  refine iterate_agree (o := fun _ => False) ?_ (fun _ _ h _ => h.elim) rfl h
  rintro bytes - l m rfl h
  exact h.rawQuoteStep quote opening bytes

/-- Single-quoted text is the same, from where its quote opens. -/
theorem readSingleQuoted (opening : Position) (h : K.Sim l m) :
    K.Agree (fun t t' => t' = K.relocation.literal t) (fun _ _ => False)
      (Lexer.readSingleQuoted opening l)
      (Lexer.readSingleQuoted (K.relocation.position opening) m) := by
  unfold Lexer.readSingleQuoted
  have hr := h.readRawQuote .single opening
  generalize Lexer.readRawQuote .single opening l = x at hr ⊢
  generalize Lexer.readRawQuote .single (K.relocation.position opening) m = y at hr ⊢
  apply hr.bind_ok (fun _ _ => rfl) (fun _ _ => rfl)
  rintro bytes - l₁ m₁ rfl sim
  exact .ok (by rw [h.place]; rfl) sim

/-- So is text with escapes, from its dollar sign. -/
theorem readAnsiCQuoted (dollar : Position) (h : K.Sim l m) :
    K.Agree (fun t t' => t' = K.relocation.literal t) (fun _ _ => False)
      (Lexer.readAnsiCQuoted dollar l)
      (Lexer.readAnsiCQuoted (K.relocation.position dollar) m) := by
  unfold Lexer.readAnsiCQuoted
  have hr := h.readRawQuote .ansiC dollar
  generalize Lexer.readRawQuote .ansiC dollar l = x at hr ⊢
  generalize Lexer.readRawQuote .ansiC (K.relocation.position dollar) m = y at hr ⊢
  apply hr.bind_ok (fun _ _ => rfl) (fun _ _ => rfl)
  rintro bytes - l₁ m₁ rfl sim
  exact .ok (by rw [h.place]; rfl) sim

/-- A step between double quotes. Before the closing one, the end of the left input is an error. -/
theorem doubleQuoteStep (opening : Position) {g g' : Gathering}
    (hg : K.relocation.Gathered g g') (h : K.Sim l m) :
    K.Agree (Progressed K.relocation.Gathered K.relocation.Moved)
      (Stalled (fun _ => True) fun _ _ => False)
      (Lexer.doubleQuoteStep opening g l)
      (Lexer.doubleQuoteStep (K.relocation.position opening) g' m) := by
  have hopen : ParseError.unterminatedQuote .double (m.place (K.relocation.position opening)) =
      K.relocation.error (.unterminatedQuote .double (l.place opening)) := by
    rw [h.place]
    rfl
  have hsettled : K.relocation.Moved (g.settle l.filename) (g'.settle m.filename) :=
    h.filename ▸ hg.settle l.filename
  unfold Lexer.doubleQuoteStep
  dsimp only
  rw [h.position]
  have hr := h.nextRune
  generalize hx : l.nextRune = x at hr ⊢
  generalize hy : m.nextRune = y at hr ⊢
  apply hr.bind (fun _ _ => rfl) (fun _ _ => rfl)
  · rintro c - l₁ m₁ - - rfl sim
    cases c with
    | none => exact .error_of_eq sim hopen
    | some c =>
      dsimp only
      split
      · exact .ok (.done (h.place opening ▸ hsettled.closeQuotes _)) sim
      split
      · have hr := sim.readInnerDollar l.position
        generalize Lexer.readInnerDollar l.position l₁ = x at hr ⊢
        generalize Lexer.readInnerDollar (K.relocation.position l.position) m₁ = y at hr ⊢
        apply hr.bind (fun _ _ => rfl) (fun _ _ => rfl)
        · rintro e e' l₂ m₂ - - value sim
          cases value with
          | elements moved => exact .ok (.more (.ofElements (hsettled.append moved))) sim
          | bare => exact .ok (.more ((Relocation.Gathered.ofElements hsettled).push '$' _)) sim
          | atEnd => exact .error_of_eq sim hopen
        · -- a name may be cut short, but then the closing quote is missing
          rintro e l₂ stopped (rfl | ⟨name, rfl⟩)
          · exact .broken stopped rfl
          · exact .cut stopped trivial
      split
      · exact .error_of_eq sim (by rw [h.place]; rfl)
      split
      · have hr := sim.nextPastReturn
        generalize l₁.nextPastReturn = x at hr ⊢
        generalize m₁.nextPastReturn = y at hr ⊢
        apply hr.bind (fun _ _ => rfl) (fun _ _ => rfl)
        · rintro c' - l₂ m₂ - - rfl sim
          cases c' with
          | none => exact .error_of_eq sim hopen
          | some c' => exact .ok (.more (hg.protect c' l.position)) sim
        · rintro - l₂ stopped rfl
          exact .broken stopped rfl
      · exact .ok (.more (hg.push c l.position)) sim
  · rintro - l₁ stopped rfl
    exact .broken stopped rfl

/-- What stands between double quotes. -/
theorem readDoubleQuoted (opening : Position) (h : K.Sim l m) :
    K.Agree K.relocation.Moved (fun _ _ => False) (Lexer.readDoubleQuoted opening l)
      (Lexer.readDoubleQuoted (K.relocation.position opening) m) := by
  refine iterate_agree (o := fun _ => True) (fun hg h => h.doubleQuoteStep opening hg) ?_ ?_ h
  · rintro g l - stopped
    obtain ⟨l₁, hl, hs, -⟩ := nextRune_of_stop stopped
    simp only [Lexer.doubleQuoteStep, hl]
    exact ⟨hs, rfl⟩
  · exact ⟨.nil, rfl, rfl, fun _ => rfl⟩

/-! ## Words -/

/-- What a dollar sign introduces outside quotes. With nothing behind it in the left input it stands for
itself there, whatever the right one has. -/
theorem readDollar (dollar : Position) (h : K.Sim l m) :
    K.Agree K.relocation.Expanded (fun e _ => OpenExpansion e) (Lexer.readDollar dollar l)
      (Lexer.readDollar (K.relocation.position dollar) m) := by
  unfold Lexer.readDollar
  rw [h.position]
  have hr := h.nextRune
  generalize hx : l.nextRune = x at hr ⊢
  generalize hy : m.nextRune = y at hr ⊢
  apply hr.bind (fun _ _ => rfl) (fun _ _ => rfl)
  · rintro c c' l₁ m₁ hl hm rfl sim
    cases c with
    | none => exact .ok .atEnd sim
    | some c =>
      dsimp only
      split
      · have hr := sim.readAnsiCQuoted dollar
        generalize Lexer.readAnsiCQuoted dollar l₁ = x at hr ⊢
        generalize Lexer.readAnsiCQuoted (K.relocation.position dollar) m₁ = y at hr ⊢
        apply hr.bind_ok (fun _ _ => rfl) (fun _ _ => rfl)
        rintro t - l₂ m₂ rfl sim
        exact .ok (.elements (.singleton rfl)) sim
      split
      · -- the quotes open behind the dollar sign, on both sides
        have hr := sim.readDoubleQuoted l.position
        generalize Lexer.readDoubleQuoted l.position l₁ = x at hr ⊢
        generalize Lexer.readDoubleQuoted (K.relocation.position l.position) m₁ = y at hr ⊢
        apply hr.bind_ok (fun _ _ => rfl) (fun _ _ => rfl)
        rintro es es' l₂ m₂ moved sim
        exact .ok (.elements moved) sim
      · exact h.readExpansion dollar (hx.trans hl) (hy.trans hm) sim
  · rintro - l₁ stopped rfl
    exact .cut stopped (.inl rfl)

/-- A pipe at the end of the left input, where the right input has some pipe. -/
def PipeAtEnd (s : Separator) (y : Except ParseError Separator) : Prop :=
  s = .pipe ∧ ∃ s', y = .ok s' ∧ s'.endsCommand = false

/-- A pipe is looked at for a second one, and that byte may be missing in the left input only. -/
theorem readPipe (here : Position) (hasOperand : Bool) (h : K.Sim l m) :
    K.Agree Eq PipeAtEnd (Lexer.readPipe here hasOperand l)
      (Lexer.readPipe (K.relocation.position here) hasOperand m) := by
  cases hasOperand with
  | false => exact .error_of_eq h (by rw [h.place]; rfl)
  | true =>
    have hp := K.peekByte h.input
    rcases hx : Input.peekByte l.input with ⟨r, s⟩
    rcases hy : Input.peekByte m.input with ⟨r', t⟩
    rw [hx, hy] at hp
    rcases hp with ⟨hv, hr⟩ | ⟨hv, hs⟩
    · have sim := h.withInput hr
      cases hv
      simp only [Lexer.readPipe, Lexer.peekByte, hx, hy, Lexer.lift]
      rcases r with e | _ | b
      · exact .ok rfl sim
      · exact .ok rfl sim
      · by_cases hb : b = 0x7C
        · subst hb
          -- the byte that was looked at is there to be read on both sides
          obtain ⟨s₂, hs₂⟩ := Input.nextByte_of_peekByte hx
          obtain ⟨t₂, ht₂⟩ := Input.nextByte_of_peekByte hy
          have hn := K.nextByte hr
          dsimp only at hn
          rw [hs₂, ht₂] at hn
          rcases hn with ⟨-, hr₂⟩ | ⟨hv, -⟩
          · simp only [Lexer.nextByte, hs₂, ht₂, Lexer.lift]
            exact .ok rfl ((h.withInput hr₂).note (.pipePair here))
          · cases hv
        · simpa [hb] using Agree.ok rfl sim
    · cases hv
      obtain ⟨s', m', hm, hs'⟩ := readPipe_of_hasOperand (K.relocation.position here) m
      rw [hm]
      simp only [Lexer.readPipe, Lexer.peekByte, hx, Lexer.lift]
      exact .cut hs ⟨rfl, s', rfl, hs'⟩

/-- Every separator but the pipe is there when its character is. -/
theorem readSeparator (here : Position) (hasOperand : Bool) (s : Separator) (h : K.Sim l m) :
    K.Agree Eq PipeAtEnd (Lexer.readSeparator here hasOperand s l)
      (Lexer.readSeparator (K.relocation.position here) hasOperand s m) := by
  unfold Lexer.readSeparator
  split
  · exact h.readPipe here hasOperand
  · exact .ok rfl h

/-- A comment goes on to the end of its line, or of the left input. -/
theorem skipComment (h : K.Sim l m) :
    K.Agree Eq (fun found _ => found = false) l.skipComment m.skipComment := by
  have hline : m.position.line = K.relocation.line l.position.line := by
    rw [h.position, K.relocation.line_position]
  unfold Lexer.skipComment
  rw [hline]
  have hr := h.skipToNewline
  generalize l.skipToNewline = x at hr ⊢
  generalize m.skipToNewline = y at hr ⊢
  apply hr.bind (fun _ _ => rfl) (fun _ _ => rfl)
  · rintro found - l₁ m₁ - - rfl sim
    exact .ok rfl (sim.note _)
  · rintro - l₁ stopped rfl
    exact .cut stopped rfl

/-- What a token may be that the left input left open: it has no separator, or a pipe. -/
def OpenToken (t : Option Token) (y : Except ParseError (Option Token)) : Prop :=
  (∀ u, t = some u → u.separator? = none) ∨
    ∃ u u' s', t = some u ∧ u.separator? = some .pipe ∧ y = .ok (some u') ∧
      u'.separator? = some s' ∧ s'.endsCommand = false

/-- A word without separators is open, whatever the right side has in its place. -/
theorem openToken_of_plain {es : List Element} (h : ∀ e ∈ es, e.separator? = none)
    (y : Except ParseError (Option Token)) : OpenToken (some ⟨es⟩) y := by
  refine .inl fun u hu => ?_
  cases hu
  exact Token.separator?_of_plain h

/-- So is what was gathered of a word, be it nothing. -/
theorem openToken_ofElements? {es : List Element} (h : ∀ e ∈ es, e.separator? = none)
    (y : Except ParseError (Option Token)) : OpenToken (Token.ofElements? es) y := by
  cases es with
  | nil => exact .inl (by simp [Token.ofElements?])
  | cons e es => exact openToken_of_plain h y

/-- What may stand behind an unquoted character where the left input is over. -/
def OpenSequel : Sequel → Except ParseError Sequel → Prop
  | .nothing, _ => False
  | .separator s, y => s = .pipe ∧ ∃ s', y = .ok (.separator s') ∧ s'.endsCommand = false
  | .escaped c, _ => c = none
  | .expansion e, _ => OpenExpansion e
  | .comment found, _ => found = false

/-- What stands behind an unquoted character is read alike, whatever the character does. -/
theorem readSequel (escape : EscapeSet) (hasOperand : Bool) (here : Position) (c : Char) (h : K.Sim l m) :
    K.Agree K.relocation.Followed OpenSequel (Lexer.readSequel escape hasOperand here c l)
      (Lexer.readSequel escape hasOperand (K.relocation.position here) c m) := by
  unfold Lexer.readSequel
  cases role escape c with
  | safe => exact .ok .nothing h
  | plain => exact .ok .nothing h
  | blank => exact .ok .nothing h
  -- a separator at the end may be a pipe whose second sign only the right input shows
  | separator s =>
    refine Agree.andThen (h.readSeparator here hasOperand s) ?_ ?_
    · rintro s _ l₁ m₁ rfl sim
      exact .ok (.separator s) sim
    · rintro _ l₁ stopped ⟨rfl, s', hs, hends⟩
      rcases hy : Lexer.readSeparator (K.relocation.position here) hasOperand s m with ⟨y, m₁⟩
      rw [hy] at hs
      cases hs
      exact .cut stopped ⟨rfl, s', rfl, hends⟩
  | backslash =>
    refine Agree.andThen h.nextPastReturn ?_ ?_
    · rintro d _ l₁ m₁ rfl sim
      exact .ok (.escaped d) sim
    · rintro _ l₁ stopped rfl
      exact .cut stopped rfl
  | singleQuote =>
    refine Agree.andThen (h.readSingleQuoted here) ?_ fun _ value => value.elim
    rintro literal _ l₁ m₁ rfl sim
    exact .ok (.expansion (.elements (.singleton rfl))) sim
  | doubleQuote =>
    refine Agree.andThen (h.readDoubleQuoted here) ?_ fun _ value => value.elim
    rintro parts parts' l₁ m₁ moved sim
    exact .ok (.expansion (.elements moved)) sim
  | dollar =>
    refine Agree.andThen (h.readDollar here) ?_ ?_
    · rintro e e' l₁ m₁ expanded sim
      exact .ok (.expansion expanded) sim
    · rintro e l₁ stopped value
      exact .cut stopped value
  | comment =>
    refine Agree.andThen h.skipComment ?_ ?_
    · rintro found _ l₁ m₁ rfl sim
      exact .ok (.comment found) sim
    · rintro found l₁ stopped value
      exact .cut stopped value
  | unsupported feature => exact .error_of_eq h (by rw [h.place]; rfl)
  | misplaced => exact .error_of_eq h (by rw [h.place]; rfl)

/-- After the same was read behind it, a character does the same. -/
theorem act (escape : EscapeSet) (label : String) {g g' : Gathering} (hg : K.relocation.Gathered g g')
    (here : Position) (c : Char) {sequel sequel' : Sequel}
    (hsequel : K.relocation.Followed sequel sequel') (h : K.Sim l m) :
    K.Agree (Progressed K.relocation.Gathered fun t t' => t' = t.map K.relocation.token)
      (Stalled (fun g => ∀ e ∈ g.elements, e.separator? = none) OpenToken)
      (Lexer.act escape label g here c sequel l)
      (Lexer.act escape label g' (K.relocation.position here) c sequel' m) := by
  have hsettled := hg.settle label
  unfold Lexer.act
  dsimp only
  -- what the character does depends on the settled word and on what was read, and these moved
  generalize g.settle label = es at hsettled ⊢
  generalize g'.settle label = es' at hsettled ⊢
  cases hsequel with
  | nothing =>
    dsimp only
    cases role escape c with
    | safe => exact .ok (.more (hg.push c here)) h
    | blank =>
      dsimp only
      rw [hsettled.isEmpty_eq]
      split
      · exact .ok (.more .empty) ⟨⟨h.input, h.label, h.filename, h.journal⟩, h.position⟩
      · exact .ok (.done (by rw [hsettled.1]; rfl)) h
    | _ => exact .ok (.more ((Relocation.Gathered.ofElements hsettled).push c here)) h
  | separator s => exact .ok (.done (by rw [hsettled.1]; simp [Relocation.token])) h
  | escaped d =>
    cases d with
    | none => exact .error_of_eq h (by rw [h.location]; rfl)
    | some d =>
      dsimp only
      split
      · exact .ok (.more (.ofElements hsettled)) h
      · exact .ok (.more ((Relocation.Gathered.ofElements hsettled).push d here)) h
  | expansion expanded =>
    cases expanded with
    | elements moved => exact .ok (.more (.ofElements (hsettled.append moved))) h
    | bare => exact .ok (.more ((Relocation.Gathered.ofElements hsettled).push '$' here)) h
    | atEnd =>
      refine .ok (.done ?_) h
      rw [hsettled.1]
      simp [Relocation.token, Relocation.literal, Relocation.location]
  | comment found =>
    dsimp only
    rw [hsettled.isEmpty_eq]
    split
    · exact .ok (.more .empty) h
    · exact .ok (.done (by rw [hsettled.1, Relocation.ofElements?_map])) h

/-- Where the left input is over behind it, a character is the last of its token, or of a word without
separators. -/
theorem act_of_stop (escape : EscapeSet) (label : String) {g : Gathering}
    (hg : ∀ e ∈ g.elements, e.separator? = none) (here : Position) (c : Char) {sequel : Sequel}
    {y : Read τ Sequel} (hsequel : OpenSequel sequel y.1) (stopped : K.stop l.input) (g' : Gathering)
    (here' : Position) (escape' : EscapeSet) (label' : String) :
    K.Agree (Progressed K.relocation.Gathered fun t t' => t' = t.map K.relocation.token)
      (Stalled (fun g => ∀ e ∈ g.elements, e.separator? = none) OpenToken)
      (Lexer.act escape label g here c sequel l)
      (Lexer.andThen y (Lexer.act escape' label' g' here' c)) := by
  have hsettled := Gathering.settle_plain hg label
  -- an expansion that is left open is a text or a reference, so the word stays plain
  have hplain {e : Element} (he : e.separator? = none) :
      ∀ f ∈ g.settle label ++ [e], f.separator? = none := by
    intro f hf
    rcases List.mem_append.mp hf with hf | hf
    · exact hsettled f hf
    · rw [List.mem_singleton.mp hf, he]
  cases sequel with
  | nothing => exact hsequel.elim
  | separator s =>
    obtain ⟨rfl, s', hy, hends⟩ := hsequel
    obtain ⟨y, m₁⟩ := y
    cases hy
    exact .cut stopped (.inr ⟨_, _, s', rfl, Token.separator?_of_separator _ _, rfl,
      Token.separator?_of_separator _ _, hends⟩)
  | escaped d =>
    cases hsequel
    exact .broken stopped rfl
  | expansion e =>
    rcases hsequel with rfl | ⟨name, rfl⟩
    · exact .cut stopped (stalled_done (openToken_of_plain (hplain rfl)) _)
    · exact .cut stopped (hplain rfl)
  | comment found =>
    cases hsequel
    exact .cut stopped (stalled_done (openToken_ofElements? hsettled) _)

/-- An unquoted character comes to the same on both sides. -/
theorem wordRune (escape : EscapeSet) (commandOpen : Bool) {g g' : Gathering}
    (hg : K.relocation.Gathered g g') (here : Position) (c : Char) (h : K.Sim l m) :
    K.Agree (Progressed K.relocation.Gathered fun t t' => t' = t.map K.relocation.token)
      (Stalled (fun g => ∀ e ∈ g.elements, e.separator? = none) OpenToken)
      (Lexer.wordRune escape commandOpen g here c l)
      (Lexer.wordRune escape commandOpen g' (K.relocation.position here) c m) := by
  rw [wordRune_eq, wordRune_eq, h.filename, (hg.settle l.filename).isEmpty_eq]
  refine Agree.andThen (h.readSequel escape _ here c) ?_ ?_
  · intro sequel sequel' l₁ m₁ hsequel sim
    exact sim.act escape _ hg here c hsequel
  · intro sequel l₁ stopped hsequel
    exact act_of_stop escape _ hg.elements.2 here c hsequel stopped g' _ escape _

/-- A step within a token. At the end of the left input the word is over as it is. -/
theorem wordStep (escape : EscapeSet) (commandOpen : Bool) {g g' : Gathering}
    (hg : K.relocation.Gathered g g') (h : K.Sim l m) :
    K.Agree (Progressed K.relocation.Gathered fun t t' => t' = t.map K.relocation.token)
      (Stalled (fun g => ∀ e ∈ g.elements, e.separator? = none) OpenToken)
      (Lexer.wordStep escape commandOpen g l) (Lexer.wordStep escape commandOpen g' m) := by
  have hsettled : K.relocation.Moved (g.settle l.filename) (g'.settle l.filename) :=
    hg.settle l.filename
  unfold Lexer.wordStep
  rw [h.position]
  have hr := h.nextRune
  generalize l.nextRune = x at hr ⊢
  generalize m.nextRune = y at hr ⊢
  apply hr.bind (fun _ _ => rfl) (fun _ _ => rfl)
  · rintro c - l₁ m₁ - - rfl sim
    cases c with
    | none =>
      refine .ok (.done ?_) sim
      rw [h.filename, hsettled.1, Relocation.ofElements?_map]
    | some c => exact sim.wordRune escape commandOpen hg l.position c
  · rintro - l₁ stopped rfl
    exact .cut stopped (stalled_done (openToken_ofElements? hsettled.2) _)

/-- A token is the same on both sides, or the left input left it open. -/
theorem readToken (escape : EscapeSet) (commandOpen : Bool) (h : K.Sim l m) :
    K.Agree (fun t t' => t' = t.map K.relocation.token) OpenToken
      (Lexer.readToken escape commandOpen l) (Lexer.readToken escape commandOpen m) := by
  refine iterate_agree (v := K.relocation.Gathered)
    (o := fun g => ∀ e ∈ g.elements, e.separator? = none)
    (fun hg h => h.wordStep escape commandOpen hg) ?_ .empty h.begin
  rintro g l hg stopped
  obtain ⟨l₁, hl, hs, -⟩ := nextRune_of_stop stopped
  simp only [Lexer.wordStep, hl]
  exact ⟨hs, openToken_ofElements? (Gathering.settle_plain hg l.filename)⟩

end Sim

end Correspondence

end ShellScript
