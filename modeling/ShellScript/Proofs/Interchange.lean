import ShellScript.Proofs.Calls
import ShellScript.Proofs.ChosenSeparators
import ShellScript.Proofs.WellFormedness

/-!
# What reading takes from an escape set

The semicolon, the newline and the pipe are separators whether they were chosen or not, and of the characters
that join text no set is asked. So two sets with the same members otherwise can be put for each other
(`EscapeSet.Interchangeable`): every character has the same role with either one, and everything that is
read is the same (`EscapeSet.indistinct_iff`, which says too that no other sets can). How a set is specified
makes no difference (`EscapeSet.indistinct_of_ofSpec`).
-/

namespace ShellScript

/-! ## The members of a set -/

namespace EscapeSet

variable {E F : EscapeSet}

/-- Of given characters, the ASCII ones are in the set. -/
theorem contains_ofChars (cs : List Char) (c : Char) :
    (ofChars cs).contains c = (decide (c.toNat < 128) && decide (c ∈ cs)) := by
  have hfold : ∀ start : EscapeSet, (cs.foldl insert start).contains c =
      (start.contains c || (decide (c.toNat < 128) && decide (c ∈ cs))) := by
    induction cs with
    | nil => simp
    | cons d cs ih =>
      intro start
      rw [List.foldl_cons, ih, contains_insert]
      by_cases hd : c = d
      · simp only [hd, List.mem_cons, true_or, decide_true]
        cases start.contains d <;> cases decide (d.toNat < 128) <;> simp
      · simp [hd]
  have hempty : empty.contains c = false := by simp [contains, empty]
  rw [ofChars, hfold, hempty, Bool.false_or]

/-- The set that a specification asks for holds its characters, whatever their order and however often each
is named. -/
theorem contains_of_ofSpec {spec : String} (h : ofSpec spec = .ok E) (c : Char) :
    E.contains c = true ↔ c ∈ spec.toList := by
  unfold ofSpec at h
  split at h
  · rename_i hascii
    cases h
    rw [contains_ofChars, Bool.and_eq_true, decide_eq_true_eq, decide_eq_true_eq]
    exact and_iff_right_of_imp fun hc => by simpa using List.all_eq_true.mp hascii c hc
  · cases h

/-- Whether two sets have the same members but for those that make no difference: the characters that join
text and the separators that need not be chosen. -/
def Interchangeable (E F : EscapeSet) : Prop :=
  ∀ c, isShellSafe c = false → Separator.fixed? c = none → E.contains c = F.contains c

/-- A character is a separator because it always is, or because it was chosen. -/
theorem separator?_or_fixed? (E : EscapeSet) (c : Char) :
    (E.separator? c <|> Separator.fixed? c) = match Separator.fixed? c with
      | some s => some s
      | none => if E.contains c then some (.other c) else none := by
  unfold separator?
  cases Separator.fixed? c <;> cases E.contains c <;> rfl

/-- With either set, every character does the same. -/
theorem Interchangeable.role_eq (h : E.Interchangeable F) : role E = role F := by
  funext c
  unfold role
  rw [separator?_or_fixed?, separator?_or_fixed?]
  cases hsafe : isShellSafe c with
  | true => rfl
  | false =>
    cases hfixed : Separator.fixed? c with
    | some s => rfl
    | none => rw [h c hsafe hfixed]

end EscapeSet

/-! ## Reading with either set -/

section

variable {σ : Type} [Input σ] {E F : EscapeSet} (h : E.Interchangeable F)

namespace Lexer

/-- Loops with the same step are the same. -/
theorem iterate_congr {α β : Type} {step step' : α → Lexer σ → Read σ (Progress α β)}
    {takes : ∀ {a a' l l'}, step a l = (.ok (.more a'), l') → l'.size < l.size}
    {takes' : ∀ {a a' l l'}, step' a l = (.ok (.more a'), l') → l'.size < l.size}
    (hstep : step = step') (a : α) (l : Lexer σ) : iterate step takes a l = iterate step' takes' a l := by
  subst hstep
  rfl

include h

/-- Interchangeable sets make the same of every step within a token. -/
theorem wordStep_congr (commandOpen : Bool) :
    (wordStep E commandOpen : Gathering → Lexer σ → _) = wordStep F commandOpen := by
  funext g l
  unfold wordStep wordRune
  simp only [h.role_eq]

/-- So they do of tokens. -/
theorem readToken_congr (commandOpen : Bool) (l : Lexer σ) :
    l.readToken E commandOpen = l.readToken F commandOpen :=
  iterate_congr (wordStep_congr h commandOpen) _ _

/-- So they do of commands. -/
theorem readCommand_congr (l : Lexer σ) : l.readCommand E = l.readCommand F := by
  refine iterate_congr ?_ _ _
  funext a l
  unfold commandStep
  rw [readToken_congr h]

/-- So they do of any calls for tokens. -/
theorem serve_congr (commandOpens : List Bool) (l : Lexer σ) :
    l.serve (commandOpens.map (⟨E, ·⟩)) = l.serve (commandOpens.map (⟨F, ·⟩)) := by
  induction commandOpens generalizing l with
  | nil => rfl
  | cons commandOpen commandOpens ih => simp only [List.map_cons, serve, readToken_congr h, ih]

end Lexer

namespace Parser

/-- The parser that reads on with another set. -/
def withEscape (p : Parser σ) (escape : EscapeSet) : Parser σ := { p with escape }

include h in
/-- One of them may be chosen for a command in place of the other. -/
theorem readCommandWith_congr (p : Parser σ) : p.readCommandWith E = p.readCommandWith F := by
  unfold readCommandWith
  rw [Lexer.readCommand_congr h]

/-- What is read with a set that is named does not depend on the set of the parser. -/
theorem readCommandWith_withEscape (p : Parser σ) (escape other : EscapeSet) :
    (p.withEscape other).readCommandWith escape =
      ((p.readCommandWith escape).1, (p.readCommandWith escape).2.withEscape other) := by
  unfold readCommandWith withEscape
  dsimp only
  split <;> rfl

/-- A set that is chosen for one command does not stay. -/
theorem escape_readCommandWith (p : Parser σ) (escape : EscapeSet) :
    (p.readCommandWith escape).2.escape = p.escape := by
  unfold readCommandWith
  split <;> rfl

/-- Nor does iterating change the set. -/
theorem escape_next (p : Parser σ) : p.next.2.escape = p.escape := by
  have hread := p.escape_readCommandWith p.escape
  unfold next readCommand
  split
  · rfl
  · revert hread
    rcases p.readCommandWith p.escape with ⟨_ | _ | _, q⟩ <;> exact id

/-- No call does. -/
theorem escape_call (p : Parser σ) (c : Call) : (p.call c).2.escape = p.escape := by
  cases c with
  | next =>
    have hnext := p.escape_next
    unfold call
    revert hnext
    rcases p.next with ⟨_ | _ | _, q⟩ <;> exact id
  | read => exact p.escape_readCommandWith p.escape
  | readWith escape => exact p.escape_readCommandWith escape

variable {p : Parser σ} (hp : p.escape.Interchangeable F)

include hp

/-- A command is the same with the other set, which stays. -/
theorem readCommand_withEscape :
    (p.withEscape F).readCommand = (p.readCommand.1, p.readCommand.2.withEscape F) := by
  rw [readCommand, show (p.withEscape F).escape = F from rfl, readCommandWith_withEscape,
    ← readCommandWith_congr hp]
  rfl

/-- So is what the iteration yields next. -/
theorem next_withEscape : (p.withEscape F).next = (p.next.1, p.next.2.withEscape F) := by
  unfold next
  rw [readCommand_withEscape hp, show (p.withEscape F).failed = p.failed from rfl]
  split
  · rfl
  · rcases p.readCommand with ⟨_ | _ | _, q⟩ <;> rfl

/-- So is what any call answers. -/
theorem call_withEscape (c : Call) : (p.withEscape F).call c = ((p.call c).1, (p.call c).2.withEscape F) := by
  cases c with
  | next =>
    unfold call
    rw [next_withEscape hp]
    rcases p.next with ⟨_ | _ | _, q⟩ <;> rfl
  | read => exact readCommand_withEscape hp
  | readWith escape => exact p.readCommandWith_withEscape escape F

/-- Whatever a parser is asked for, it answers the same with either set, and stands where it would. -/
theorem serve_withEscape (calls : List Call) :
    (p.withEscape F).serve calls = ((p.serve calls).1, (p.serve calls).2.withEscape F) := by
  induction calls generalizing p with
  | nil => rfl
  | cons c calls ih =>
    have hafter : (p.call c).2.escape.Interchangeable F := by
      rw [escape_call]
      exact hp
    simp only [serve, call_withEscape hp, ih hafter]

/-- All that the iteration yields is the same with either set. -/
theorem items_withEscape : (p.withEscape F).items = (p.items.1, p.items.2.withEscape F) := by
  rw [items_eq, next_withEscape hp]
  fun_induction items p with
  | case1 p p₁ hnext => rw [hnext]
  | case2 p e p₁ hnext => rw [hnext]
  | case3 p c p₁ hnext rest p₂ hrest ih =>
    have hp₁ : p₁.escape.Interchangeable F := by
      have hescape := p.escape_next
      rw [hnext] at hescape
      exact hescape ▸ hp
    rw [hnext]
    have hitems := ih hp₁
    rw [← next_withEscape hp₁, ← items_eq, hrest] at hitems
    simp only [hitems]

end Parser

end

/-! ## Sets that nothing tells apart -/

namespace EscapeSet

/-- Whether nothing that is read from any input, in any state, tells two sets apart. Where a lexer is
compared, so are its positions. -/
structure Indistinct (E F : EscapeSet) : Prop where
  /-- A token or an error, and the lexer after it. -/
  token : ∀ {σ : Type} [Input σ] (l : Lexer σ) commandOpen,
    l.readToken E commandOpen = l.readToken F commandOpen
  /-- All tokens that are asked for, one after the other. -/
  tokens : ∀ {σ : Type} [Input σ] (l : Lexer σ) (commandOpens : List Bool),
    l.serve (commandOpens.map (⟨E, ·⟩)) = l.serve (commandOpens.map (⟨F, ·⟩))
  /-- A command or an error, and the parser after it. -/
  command : ∀ {σ : Type} [Input σ] (p : Parser σ), p.readCommandWith E = p.readCommandWith F
  /-- All that a parser with one of the sets is asked for. -/
  calls : ∀ {σ : Type} [Input σ] (p : Parser σ) (calls : List Parser.Call),
    ((p.withEscape E).serve calls).1 = ((p.withEscape F).serve calls).1 ∧
      ((p.withEscape E).serve calls).2.lexer = ((p.withEscape F).serve calls).2.lexer
  /-- The iteration over the commands. -/
  items : ∀ {σ : Type} [Input σ] (p : Parser σ), (p.withEscape E).items.1 = (p.withEscape F).items.1 ∧
    (p.withEscape E).items.2.lexer = (p.withEscape F).items.2.lexer

variable {E F : EscapeSet}

/-- Sets that differ in such characters only cannot be told apart. -/
theorem Interchangeable.indistinct (h : E.Interchangeable F) : E.Indistinct F where
  token l commandOpen := Lexer.readToken_congr h commandOpen l
  tokens l commandOpens := Lexer.serve_congr h commandOpens l
  command p := Parser.readCommandWith_congr h p
  calls p calls := by
    have hserve := Parser.serve_withEscape (p := p.withEscape E) h calls
    rw [show p.withEscape F = (p.withEscape E).withEscape F from rfl, hserve]
    exact ⟨rfl, rfl⟩
  items p := by
    have hitems := Parser.items_withEscape (p := p.withEscape E) h
    rw [show p.withEscape F = (p.withEscape E).withEscape F from rfl, hitems]
    exact ⟨rfl, rfl⟩

/-- A member that makes a difference is read as a separator by itself, which no set without it allows. -/
theorem contains_of_readToken (h : ∀ l : Lexer Cursor, l.readToken E false = l.readToken F false) {c : Char}
    (hsafe : isShellSafe c = false) (hfixed : Separator.fixed? c = none) (hc : E.contains c = true) :
    F.contains c = true := by
  let p := Parser.ofCursor (String.utf8EncodeChar c) "" E
  have hrole : role E c = .separator (.other c) := by
    refine role_of_separator? hsafe ?_
    rw [separator?, hc, hfixed]
    rfl
  have hrest : p.lexer.input.rest = String.utf8EncodeChar c ++ [] := (List.append_nil _).symm
  obtain ⟨l, hread, -⟩ := Lexer.readOn_separator hrole rfl hrest
  have hread' : p.lexer.readToken F false = (.ok (some ⟨[.separator (.other c)]⟩), l) :=
    (h p.lexer).symm.trans hread
  exact (Lexer.wellFormed_of_readToken hread').elements _ (List.mem_singleton.mpr rfl)

/-- Two sets can be told apart by what is read if and only if some character that makes a difference is in
one of them and not in the other. -/
theorem indistinct_iff : E.Indistinct F ↔ E.Interchangeable F := by
  refine ⟨fun h c hsafe hfixed => Bool.eq_iff_iff.mpr ⟨?_, ?_⟩, Interchangeable.indistinct⟩
  · exact contains_of_readToken (fun l => h.token l false) hsafe hfixed
  · exact contains_of_readToken (fun l => (h.token l false).symm) hsafe hfixed

/-- Specifications that name the same characters, but for the semicolon, the newline and the pipe, ask for
sets that nothing tells apart. -/
theorem indistinct_of_ofSpec {spec spec' : String} (hE : ofSpec spec = .ok E) (hF : ofSpec spec' = .ok F)
    (h : ∀ c, c ∉ [';', '\n', '|'] → (c ∈ spec.toList ↔ c ∈ spec'.toList)) : E.Indistinct F := by
  refine indistinct_iff.mpr fun c _ hfixed => Bool.eq_iff_iff.mpr ?_
  rw [contains_of_ofSpec hE, contains_of_ofSpec hF]
  refine h c fun hc => ?_
  simp only [List.mem_cons, List.not_mem_nil, or_false] at hc
  rcases hc with rfl | rfl | rfl <;> cases hfixed

/-- The comma alone, and the comma again and again with a newline and a pipe between: `a,b|` is read the same. -/
theorem indistinct_of_ofSpec_comma : ∃ E F : EscapeSet, ofSpec "," = .ok E ∧ ofSpec ",\n,|," = .ok F ∧
    (∀ c, c ∉ [';', '\n', '|'] → (c ∈ ",".toList ↔ c ∈ ",\n,|,".toList)) ∧ E ≠ F ∧ E.Indistinct F ∧
    ((Parser.ofBytes (Utf8.encode "a,b||") "s" F).lexer.serve [⟨E, false⟩, ⟨E, false⟩]).1 =
      ((Parser.ofBytes (Utf8.encode "a,b||") "s" F).lexer.serve [⟨F, false⟩, ⟨F, false⟩]).1 := by
  have hE : ofSpec "," = .ok (ofChars [',']) := by decide
  have hF : ofSpec ",\n,|," = .ok (ofChars [',', '\n', ',', '|', ',']) := by decide
  have h : ∀ c, c ∉ [';', '\n', '|'] → (c ∈ ",".toList ↔ c ∈ ",\n,|,".toList) := by
    intro c hc
    simp at hc ⊢
    grind
  have hindistinct := indistinct_of_ofSpec hE hF h
  exact ⟨_, _, hE, hF, h, by decide, hindistinct,
    congrArg Prod.fst (hindistinct.tokens _ [false, false])⟩

end EscapeSet

end ShellScript
