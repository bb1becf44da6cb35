import Mathlib.Control.Monad.Basic
import ShellScript.Proofs.Inputs
import ShellScript.Proofs.Landing

/-!
# Where things are reported

Every position that a parser reports is the position behind some beginning of the text, and what is read
later is reported further on (`Parser.items_placed`).
-/

namespace ShellScript

/-- The origins of the elements of a command in order. -/
def Command.origins (c : Command) : List Location :=
  ShellScript.origins (c.tokens.flatMap Token.elements)

/-- The places that an item of an iteration reports. -/
def reported : Except ParseError Command → List Location
  | .ok c => c.location :: c.origins
  | .error e => e.location?.toList

namespace Lexer

section

variable {label : String} {text : List Char} {l l₁ l' : Lexer Cursor}

/-! ## Commands -/

/-- Words of a command in the making, which come from behind where the first one starts. -/
def Assembles (label : String) (text : List Char) (lo hi : Nat) (a : Assembly) : Prop :=
  a.words = [] ∧ a.start = none ∨
    ∃ start, a.start = some start ∧ Placed label text start ∧ lo ≤ start.position.offset ∧
      Spans label text start.position.offset hi (a.words.flatMap Token.elements)

variable {a : Assembly} {lo hi : Nat}

/-- Words in the making come from before every later offset. -/
theorem Assembles.mono (h : Assembles label text lo hi a) {hi' : Nat} (hle : hi ≤ hi') :
    Assembles label text lo hi' a := by
  rcases h with hempty | ⟨start, hstart, hplaced, hlo, hspans⟩
  · exact .inl hempty
  · exact .inr ⟨start, hstart, hplaced, hlo, hspans.mono hle⟩

/-- A word from further on may be added. -/
theorem Assembles.add (h : Assembles label text lo hi a) {word : Token} {p : Position} {hi' : Nat}
    (hp : p.Within text) (hlo : lo ≤ p.offset) (hle : hi ≤ p.offset)
    (hword : Spans label text p.offset hi' word.elements) :
    Assembles label text lo hi' (a.add word ⟨label, p⟩) := by
  unfold Assembly.add
  split
  · exact h.mono (Nat.le_trans hle hword.le)
  · right
    rcases h with ⟨hwords, hstart⟩ | ⟨start, hstart, hplaced, hlo', hspans⟩
    · refine ⟨⟨label, p⟩, by simp [hstart], ⟨rfl, hp⟩, hlo, ?_⟩
      simpa [hwords] using hword
    · refine ⟨start, by simp [hstart], hplaced, hlo', ?_⟩
      simpa using (hspans.mono hle).append hword

/-- A command that comes from between two offsets of a text. -/
structure CommandSpans (label : String) (text : List Char) (lo hi : Nat) (c : Command) : Prop where
  placed : Placed label text c.location
  le : lo ≤ c.location.position.offset
  spans : Spans label text c.location.position.offset hi (c.tokens.flatMap Token.elements)

/-- What a step within a command that began at `lo` keeps. -/
def CommandKeeps (label : String) (text : List Char) (lo : Nat) (l : Lexer Cursor) :
    Progress Assembly (Option Command) → Lexer Cursor → Prop :=
  Keeps
    (fun a l' => Stands label text l' ∧ l.position.offset ≤ l'.position.offset ∧
      Assembles label text lo l'.position.offset a)
    (fun c l' => Stands label text l' ∧ l.position.offset ≤ l'.position.offset ∧
      ∀ d ∈ c, CommandSpans label text lo l'.position.offset d)

/-- A command that is over comes from where its words do. -/
theorem finishCommand_lands (hl₁ : Stands label text l₁)
    (hforward : l.position.offset ≤ l₁.position.offset)
    (ha : Assembles label text lo l₁.position.offset a) (hwords : a.words ≠ [])
    (terminator : Option Separator) :
    Lands label text (CommandKeeps label text lo l) (l₁.finishCommand a terminator) := by
  rcases ha with ⟨hnone, -⟩ | ⟨start, hstart, hplaced, hlo, hspans⟩
  · exact (hwords hnone).elim
  · refine .ok ⟨hl₁.note _, hforward, fun d hd => ?_⟩
    have hlocation : a.start.getD l₁.startLocation = start := by
      rw [hstart]
      rfl
    cases hd
    rw [hlocation]
    exact ⟨hplaced, hlo, hspans⟩

/-- Splitting the separator off leaves elements out, and moves none. -/
theorem splitSeparator_sublist (t : Token) : t.splitSeparator.1.elements.Sublist t.elements := by
  unfold Token.splitSeparator
  split
  · exact List.dropLast_sublist _
  · exact List.Sublist.refl _

/-- One more token of a command that began at an offset. -/
theorem Stands.commandStep (h : Stands label text l) (escape : EscapeSet)
    (hlo : lo ≤ l.position.offset) (ha : Assembles label text lo l.position.offset a) :
    Lands label text (CommandKeeps label text lo l) (Lexer.commandStep escape a l) := by
  unfold Lexer.commandStep
  have hr := h.readToken escape (!a.words.isEmpty)
  generalize l.readToken escape (!a.words.isEmpty) = r at hr ⊢
  cases hr with
  | error placed stands => exact .error placed stands
  | @ok t l₁ value =>
    obtain ⟨hl₁, hstart, hforward, hspans⟩ := value
    cases t with
    | none =>
      dsimp only
      split
      · exact .ok ⟨hl₁, hforward, by simp⟩
      · rename_i hwords
        exact finishCommand_lands hl₁ hforward (ha.mono hforward) (by simpa using hwords) none
    | some t =>
      -- without its separator a token is a word that begins where the token does
      have hword := (hspans t rfl).sublist (splitSeparator_sublist t)
      have hadd := ha.add hl₁.start (Nat.le_trans hlo hstart) hstart hword
      have hlocation : l₁.startLocation = ⟨label, l₁.tokenStart⟩ := by
        rw [startLocation, Lexer.place, hl₁.filename]
      dsimp only
      rw [hlocation]
      split
      · exact .ok ⟨hl₁, hforward, hadd⟩
      split
      · exact hl₁.raise rfl hl₁.placed
      split
      · exact .ok ⟨hl₁.note _, hforward, hadd⟩
      · rename_i hwords
        exact finishCommand_lands hl₁ hforward hadd (by simpa using hwords) _

/-- A command comes from behind where the lexer stood and from before where it stands then. -/
theorem Stands.readCommand (h : Stands label text l) (escape : EscapeSet) :
    Lands label text (fun c l' => Stands label text l' ∧
        l.position.offset ≤ l'.position.offset ∧
        ∀ d ∈ c, CommandSpans label text l.position.offset l'.position.offset d)
      (l.readCommand escape) := by
  refine iterate_lands (P := fun a l' => Stands label text l' ∧
    l.position.offset ≤ l'.position.offset ∧
    Assembles label text l.position.offset l'.position.offset a) ?_
    ⟨h, Nat.le_refl _, .inl ⟨rfl, rfl⟩⟩
  rintro a l₁ ⟨hl₁, hforward, ha⟩
  refine (hl₁.commandStep escape hforward ha).imp fun p l₂ value => ?_
  cases p with
  | more a' => exact ⟨value.1, Nat.le_trans hforward value.2.1, value.2.2⟩
  | done c => exact ⟨value.1, Nat.le_trans hforward value.2.1, value.2.2⟩

end

end Lexer

/-! ## Scripts -/

/-- The origins of the elements of an item of an iteration. -/
def itemOrigins : Except ParseError Command → List Location
  | .ok c => c.origins
  | .error _ => []

/-- Items of an iteration that are reported from behind an offset on, in the order of the text. -/
structure Reports (label : String) (text : List Char) (lo : Nat)
    (is : List (Except ParseError Command)) : Prop where
  placed : ∀ i ∈ is, ∀ l ∈ reported i, Placed label text l
  le : ∀ c, .ok c ∈ is → lo ≤ c.location.position.offset
  first : ∀ c, .ok c ∈ is → ∀ l ∈ c.origins, c.location.position.offset ≤ l.position.offset
  ascending : (is.flatMap itemOrigins).Pairwise fun l l' => l.position.offset < l'.position.offset
  order : is.Pairwise fun i j => ∀ l ∈ itemOrigins i, ∀ c, j = .ok c →
    l.position.offset < c.location.position.offset
  substitutions : ∀ c, .ok c ∈ is → ∀ s, .substitution s ∈ c.tokens.flatMap Token.elements →
    s.StandsIn label text

namespace Reports

variable {label : String} {text : List Char} {lo hi : Nat} {is : List (Except ParseError Command)}

/-- Nothing is reported of nothing. -/
theorem nil : Reports label text lo [] := by
  constructor <;> simp

/-- An error that is placed is reported from its text. -/
theorem error {e : ParseError} (h : ∀ p ∈ e.location?, Placed label text p) :
    Reports label text lo [.error e] := by
  constructor <;> simp [reported, itemOrigins]
  simpa using h

/-- A command, and items that are reported from behind it. -/
theorem cons {c : Command} (h : Lexer.CommandSpans label text lo hi c)
    (his : Reports label text hi is) : Reports label text lo (.ok c :: is) where
  placed i hi l hl := by
    rcases List.mem_cons.mp hi with rfl | hi
    · rcases List.mem_cons.mp hl with rfl | hl
      · exact h.placed
      · exact h.spans.placed l hl
    · exact his.placed i hi l hl
  le d hd := by
    have hle := h.le
    have hspan := h.spans.le
    rcases List.mem_cons.mp hd with hd | hd
    · cases hd
      exact hle
    · have := his.le d hd
      omega
  first d hd l hl := by
    rcases List.mem_cons.mp hd with hd | hd
    · cases hd
      exact (h.spans.range l hl).1
    · exact his.first d hd l hl
  -- an origin in the command and one behind it: the command ends before the other one begins
  ascending := by
    rw [List.flatMap_cons, List.pairwise_append]
    refine ⟨h.spans.ascending, his.ascending, fun l hl l' hl' => ?_⟩
    obtain ⟨i, hi, hl'⟩ := List.mem_flatMap.mp hl'
    have hbefore := (h.spans.range l hl).2
    cases i with
    | error e => simp [itemOrigins] at hl'
    | ok d =>
      have hlo := his.le d hi
      have hfirst := his.first d hi l' hl'
      omega
  order := by
    refine List.pairwise_cons.mpr ⟨fun j hj l hl d hd => ?_, his.order⟩
    have hbefore := (h.spans.range l hl).2
    have hlo := his.le d (hd ▸ hj)
    omega
  substitutions d hd s hs := by
    rcases List.mem_cons.mp hd with hd | hd
    · cases hd
      exact h.spans.substitutions s hs
    · exact his.substitutions d hd s hs

end Reports

namespace Parser

/-- All that an iteration yields is reported from behind where the parser stood. -/
theorem reports_items {label : String} {text : List Char} {p : Parser Cursor}
    (h : p.lexer.Stands label text) : Reports label text p.lexer.position.offset p.items.1 := by
  generalize hitems : p.items.1 = is
  induction is generalizing p with
  | nil => exact .nil
  | cons item is ih =>
    have hread := h.readCommand p.escape
    cases item with
    | error e =>
      obtain ⟨l, hl, rfl⟩ := readCommand_of_items_error hitems
      rw [hl] at hread
      cases hread with
      | error placed _ => exact .error placed
    | ok c =>
      obtain ⟨l, hl, hrest⟩ := readCommand_of_items hitems
      rw [hl] at hread
      cases hread with
      | ok value =>
        obtain ⟨hstands, -, hspans⟩ := value
        exact .cons (hspans c rfl) (ih (p := { p with lexer := l, failed := false }) hstands hrest)

/-- A parser at the start of a text reports from the whole of it. -/
theorem reports_ofCursor (escape : EscapeSet) (filename text : String) :
    Reports filename text.toList 0 (ofCursor (Utf8.encode text) filename escape).items.1 :=
  reports_items (p := ofCursor (Utf8.encode text) filename escape)
    ⟨rfl, ⟨[], text.toList, rfl, rfl, rfl⟩, ⟨[], text.toList, rfl, rfl⟩⟩

/-- Every position that is reported of a text is the position behind some beginning of the text. The
origins of all literals and substitutions ascend, and each command starts behind the origins of the
commands before it and not behind its own. -/
theorem items_placed (escape : EscapeSet) (filename text : String) :
    let items := (ofBytes (Utf8.encode text) filename escape).items.1
    (∀ i ∈ items, ∀ l ∈ reported i,
      ∃ u v, text.toList = u ++ v ∧ l = ⟨filename, .behind u⟩) ∧
    ((items.flatMap itemOrigins).Pairwise fun l l' => l.position.offset < l'.position.offset) ∧
    (∀ c, .ok c ∈ items → ∀ l ∈ c.origins, c.location.position.offset ≤ l.position.offset) ∧
    (items.Pairwise fun i j => ∀ l ∈ itemOrigins i, ∀ c, j = .ok c →
      l.position.offset < c.location.position.offset) := by
  intro items
  have hreports := reports_ofCursor escape filename text
  rw [← items_ofBytes] at hreports
  refine ⟨fun i hi l hl => ?_, hreports.ascending, hreports.first, hreports.order⟩
  obtain ⟨hlabel, u, v, htext, hposition⟩ := hreports.placed i hi l hl
  exact ⟨u, v, htext, by rw [← hlabel, ← hposition]⟩

/-- In `é;'é'$(b)` the substitution of the second command stands behind seven bytes, which are five
characters. -/
theorem items_placed_substitution :
    let items := (ofBytes (Utf8.encode "é;'é'$(b)") "s" .default).items.1
    ∃ (c d : Command) (l : Location), items = [.ok c, .ok d] ∧ l ∈ d.origins ∧
      l = ⟨"s", ⟨7, 1, 6⟩⟩ ∧ (∃ u v, "é;'é'$(b)".toList = u ++ v ∧ l = ⟨"s", .behind u⟩) ∧
      d.location.position.offset ≤ l.position.offset ∧
      ∀ l' ∈ c.origins, l'.position.offset < d.location.position.offset := by
  intro items
  let c : Command := ⟨[⟨[.literal ⟨"é", ⟨"s", .start⟩⟩]⟩], some .semicolon, ⟨"s", .start⟩⟩
  let l : Location := ⟨"s", ⟨7, 1, 6⟩⟩
  let d : Command := ⟨[⟨[.literal ⟨"é", ⟨"s", ⟨3, 1, 3⟩⟩⟩, .substitution ⟨"b", l⟩]⟩], none,
    ⟨"s", ⟨3, 1, 3⟩⟩⟩
  have hitems : items = [.ok c, .ok d] := by decide +kernel
  have hl : l ∈ d.origins := by decide
  obtain ⟨hplaced, -, hfirst, horder⟩ := items_placed .default "s" "é;'é'$(b)"
  have hd : .ok d ∈ items := by simp [hitems]
  rw [show (ofBytes (Utf8.encode "é;'é'$(b)") "s" .default).items.1 = [.ok c, .ok d] from hitems]
    at horder
  refine ⟨c, d, l, hitems, hl, rfl, hplaced _ hd l (List.mem_cons_of_mem _ hl), hfirst d hd l hl, ?_⟩
  exact fun l' hl' => (List.pairwise_cons.mp horder).1 _ (List.mem_singleton.mpr rfl) l' hl' d rfl

end Parser

end ShellScript
