import ShellScript.Proofs.Texts

/-!
# Where a script stands as a body

A script that becomes the body of a substitution is looked through twice: by the lexer that reads it, and by
the body reader, which only knows brackets, quotes and backslashes (`Nesting`). This module goes through a
script as the lexer does, and says where that leaves a body (`Along`). The two go together as long as the
parts that the lexer takes as they are, the `stretches`, leave the body where it stands.
-/

namespace ShellScript

/-- Where a body stands outside or inside double quotes, with no bracket open. -/
def Nesting.standing (quoted : Bool) : Nesting :=
  { quoting := if quoted then .double else .bare }

/-- A text from a body of parentheses. -/
def Nesting.feedAll (n : Nesting) (text : List Char) : Option Nesting :=
  text.foldlM (Nesting.feed .parentheses) n

/-- A part of a script that is taken as it is: a comment, the body of an expansion, or the character behind
a backslash and a carriage return. -/
structure Stretch where
  quoted : Bool
  text : List Char
  deriving DecidableEq, Repr

/-- Whether a body stands behind a stretch where it stood before it. -/
def Stretch.Level (s : Stretch) : Prop :=
  (Nesting.standing s.quoted).feedAll s.text = some (.standing s.quoted)

instance (s : Stretch) : Decidable s.Level :=
  inferInstanceAs (Decidable (_ = _))

/-- The body at the start of a text, which its brackets enclose, and the text behind them. -/
def Brackets.split (pair : Brackets) : Nesting → List Char → Option (List Char × List Char)
  | _, [] => none
  | n, c :: text =>
    match n.feed pair c with
    | none => some ([], text)
    | some n' => (pair.split n' text).map fun parts => (c :: parts.1, parts.2)

/-- What the lexer takes at once: the stretches in it, whether it leads into double quotes, and the text
behind it. -/
structure Passage where
  stretches : List Stretch
  quoted : Bool
  rest : List Char

/-- What is taken behind a dollar sign. Outside quotes the body of a substitution ends where the body
reader says it does, so it is no stretch. -/
def dollarPassage (quoted : Bool) : List Char → Passage
  | [] => ⟨[], quoted, []⟩
  | c :: rest =>
    if c = '{' then
      match Brackets.braces.split {} rest with
      | some (body, rest) => ⟨[⟨quoted, body⟩], quoted, rest⟩
      | none => ⟨[], quoted, []⟩
    else if c = '(' then
      match Brackets.parentheses.split {} rest with
      | some (body, rest) => ⟨if quoted then [⟨quoted, body⟩] else [], quoted, rest⟩
      | none => ⟨[], quoted, []⟩
    else if isSpecialParameter c then ⟨[], quoted, rest⟩
    else ⟨[], quoted, c :: rest⟩

/-- What is taken behind a backslash. -/
def backslashPassage (quoted : Bool) : List Char → Passage
  | '\r' :: c :: rest => ⟨[⟨quoted, [c]⟩], quoted, rest⟩
  | _ :: rest => ⟨[], quoted, rest⟩
  | [] => ⟨[], quoted, []⟩

/-- What is taken with a character. -/
def passage (quoted : Bool) (c : Char) (rest : List Char) : Passage :=
  if c = '\\' then backslashPassage quoted rest
  else if c = '"' then ⟨[], !quoted, rest⟩
  else if c = '$' then dollarPassage quoted rest
  else if quoted then ⟨[], quoted, rest⟩
  else if c = '\'' then ⟨[], quoted, (rest.dropWhile (· ≠ '\'')).drop 1⟩
  else if c = '#' then ⟨[⟨quoted, rest.takeWhile (· ≠ '\n')⟩], quoted, rest.dropWhile (· ≠ '\n')⟩
  else ⟨[], quoted, rest⟩

/-- What is left behind a body is no longer than the text. -/
theorem Brackets.length_split_le {pair : Brackets} {n : Nesting} {text body rest : List Char}
    (h : pair.split n text = some (body, rest)) : rest.length ≤ text.length := by
  induction text generalizing n body with
  | nil => cases h
  | cons c text ih =>
    unfold split at h
    split at h
    · cases h
      simp
    · obtain ⟨⟨body', rest'⟩, hsplit, hparts⟩ := Option.map_eq_some_iff.mp h
      cases hparts
      exact Nat.le_succ_of_le (ih hsplit)

/-- Nor is what is left behind a dollar sign and what it introduces. -/
theorem length_dollarPassage_le (quoted : Bool) (rest : List Char) :
    (dollarPassage quoted rest).rest.length ≤ rest.length := by
  unfold dollarPassage
  split
  · exact Nat.le_refl _
  · rename_i c rest
    split
    · split
      · rename_i hsplit
        exact Nat.le_succ_of_le (Brackets.length_split_le hsplit)
      · exact Nat.zero_le _
    split
    · split
      · rename_i hsplit
        exact Nat.le_succ_of_le (Brackets.length_split_le hsplit)
      · exact Nat.zero_le _
    split
    · exact Nat.le_succ _
    · exact Nat.le_refl _

/-- Nor is what is left behind a backslash and what it takes. -/
theorem length_backslashPassage_le (quoted : Bool) (rest : List Char) :
    (backslashPassage quoted rest).rest.length ≤ rest.length := by
  unfold backslashPassage
  split
  · exact Nat.le_add_right _ 2
  · exact Nat.le_add_right _ 1
  · exact Nat.le_refl _

/-- Nor is what is left behind any character and what is taken with it. -/
theorem length_passage_le (quoted : Bool) (c : Char) (rest : List Char) :
    (passage quoted c rest).rest.length ≤ rest.length := by
  unfold passage
  split
  · exact length_backslashPassage_le quoted rest
  split
  · exact Nat.le_refl _
  split
  · exact length_dollarPassage_le quoted rest
  split
  · exact Nat.le_refl _
  split
  · have hle := (List.dropWhile_suffix (l := rest) (· ≠ '\'')).length_le
    simp only [List.length_drop]
    omega
  split
  · exact (List.dropWhile_suffix _).length_le
  · exact Nat.le_refl _

/-- The stretches of a script, or of what is left of it inside double quotes. -/
def stretches (quoted : Bool) (text : List Char) : List Stretch :=
  match text with
  | [] => []
  | c :: rest =>
    (passage quoted c rest).stretches ++
      stretches (passage quoted c rest).quoted (passage quoted c rest).rest
termination_by text.length
decreasing_by exact Nat.lt_succ_of_le (length_passage_le quoted c rest)

/-- The stretches of a script are those of its first passage and those behind it. -/
theorem stretches_cons (quoted : Bool) (c : Char) (rest : List Char) :
    stretches quoted (c :: rest) = (passage quoted c rest).stretches ++
      stretches (passage quoted c rest).quoted (passage quoted c rest).rest := by
  rw [stretches]

example : stretches false "a$\x7bb)\x7d\"$(c)\\\rd\"#)".toList =
    [⟨false, ['b', ')']⟩, ⟨true, ['c']⟩, ⟨true, ['d']⟩, ⟨false, [')']⟩] := by decide +kernel

/-! ## Bodies in a text -/

/-- A body that brackets enclose ends at the bracket behind it. -/
theorem Brackets.split_of_encloses {pair : Brackets} {body : List Char} (h : pair.Encloses body)
    (rest : List Char) :
    pair.split {} (body ++ pair.closing :: rest) = some (body, rest) := by
  obtain ⟨n, hfeed, hclose⟩ := h
  suffices hloop : ∀ start, body.foldlM (Nesting.feed pair) start = some n →
      pair.split start (body ++ pair.closing :: rest) = some (body, rest) from hloop {} hfeed
  clear hfeed
  induction body with
  | nil =>
    intro start hstart
    cases hstart
    simp [split, hclose]
  | cons c body ih =>
    intro start hstart
    rw [List.foldlM_cons] at hstart
    obtain ⟨next, hnext, hrest⟩ := Option.bind_eq_some_iff.mp hstart
    simp [split, hnext, ih next hrest]

namespace Nesting

/-- A body is closed only where no other bracket and no quote is open. -/
theorem eq_start_of_feed {pair : Brackets} {n : Nesting} {c : Char} (h : n.feed pair c = none) :
    n = {} := by
  obtain ⟨depth, quoting, escaped⟩ := n
  unfold feed at h
  cases escaped <;> cases quoting <;> cases depth <;> grind

/-- One more bracket around a body changes nothing in it. -/
theorem feed_deeper {pair : Brackets} {n n' : Nesting} {c : Char} (h : n.feed pair c = some n') :
    ({ n with depth := n.depth + 1 } : Nesting).feed pair c =
      some { n' with depth := n'.depth + 1 } := by
  obtain ⟨depth, quoting, escaped⟩ := n
  cases escaped with
  | true => cases h; rfl
  | false =>
    cases quoting with
    | single => cases h; unfold feed; dsimp only; grind
    | double => cases h; unfold feed; dsimp only; grind
    | bare =>
      unfold feed at h ⊢
      cases depth <;> grind

/-- A body takes one text after the other. -/
theorem feedAll_append (n : Nesting) (v w : List Char) :
    n.feedAll (v ++ w) = (n.feedAll v).bind (·.feedAll w) := List.foldlM_append

@[simp] theorem feedAll_nil (n : Nesting) : n.feedAll [] = some n := rfl

/-- A body takes the first character, and then the others. -/
theorem feedAll_cons (n : Nesting) (c : Char) (w : List Char) :
    n.feedAll (c :: w) = (n.feed .parentheses c).bind (·.feedAll w) := List.foldlM_cons

/-- Feeding a body with its brackets. -/
theorem feedAll_between {n n₁ n₂ n₃ : Nesting} {v body w : List Char} (hv : n.feedAll v = some n₁)
    (hbody : n₁.feedAll body = some n₂) (hw : n₂.feedAll w = some n₃) :
    n.feedAll (v ++ (body ++ w)) = some n₃ := by
  rw [feedAll_append, hv, Option.bind_some, feedAll_append, hbody, Option.bind_some, hw]

/-- One more open bracket outside makes no difference, unless a body ends. -/
theorem feedAll_deeper {n n' : Nesting} {w : List Char} (h : n.feedAll w = some n') :
    ({ n with depth := n.depth + 1 } : Nesting).feedAll w =
      some { n' with depth := n'.depth + 1 } := by
  induction w generalizing n with
  | nil =>
    cases h
    rfl
  | cons c w ih =>
    rw [feedAll_cons] at h ⊢
    obtain ⟨next, hnext, hrest⟩ := Option.bind_eq_some_iff.mp h
    rw [feed_deeper hnext]
    exact ih hrest

end Nesting

/-- Parentheses enclose a body that leaves no bracket and no quote open. -/
theorem encloses_parentheses_iff {body : List Char} :
    Brackets.parentheses.Encloses body ↔ ({} : Nesting).feedAll body = some {} := by
  constructor
  · rintro ⟨n, hfeed, hclose⟩
    exact Nesting.eq_start_of_feed hclose ▸ hfeed
  · exact fun h => ⟨{}, h, rfl⟩

instance (body : List Char) : Decidable (Brackets.parentheses.Encloses body) :=
  decidable_of_iff _ encloses_parentheses_iff.symm

/-- Characters that are text to the lexer and to the body reader wherever they stand. -/
def isInert (c : Char) : Bool :=
  !(c = '\\' || c = '"' || c = '$' || c = '\'' || c = '#' || c = '(' || c = ')')

/-- Characters of a kind that has none of these are inert. -/
theorem isInert_of_any {p : Char → Bool}
    (hp : ['\\', '"', '$', '\'', '#', '(', ')'].any p = false) {c : Char} (h : p c = true) :
    isInert c = true := by
  rw [isInert, Bool.not_eq_true', Bool.eq_false_iff]
  intro hc
  have hmem : c ∈ ['\\', '"', '$', '\'', '#', '(', ')'] := by simpa [or_assoc] using hc
  exact List.any_eq_false.mp hp c hmem h

/-- The text before a character that does not occur in it, and what that character begins. -/
theorem span_ne {cs y : List Char} {d : Char} (hcs : d ∉ cs) (hy : ∀ c ∈ y.head?, c = d) :
    (cs ++ y).takeWhile (· ≠ d) = cs ∧ (cs ++ y).dropWhile (· ≠ d) = y := by
  have hne : ∀ c ∈ cs, decide (c ≠ d) = true := fun c hc =>
    decide_eq_true fun heq => hcs (heq ▸ hc)
  have hend : y.takeWhile (· ≠ d) = [] ∧ y.dropWhile (· ≠ d) = y := by
    cases y with
    | nil => exact ⟨rfl, rfl⟩
    | cons c y => simp [hy c rfl]
  rw [List.takeWhile_append_of_pos hne, List.dropWhile_append_of_pos hne, hend.1, hend.2]
  exact ⟨List.append_nil cs, rfl⟩

/-! ## Both readers along a script -/

/-- Where the lexer and the body reader stand in a script before what is left of it: the same quotes are
open for both, and the stretches that are left are level. -/
structure Along (script : List Char) (quoted : Bool) (left : List Char) : Prop where
  fed : ∃ w, script = w ++ left ∧ ({} : Nesting).feedAll w = some (.standing quoted)
  level : ∀ p ∈ stretches quoted left, p.Level

namespace Along

variable {script rest w y body cs : List Char} {quoted : Bool} {c : Char}

/-- A script with level stretches is gone along from its start. -/
theorem start {script : List Char} (h : ∀ p ∈ stretches false script, p.Level) :
    Along script false script :=
  ⟨⟨[], rfl, rfl⟩, h⟩

/-- At its end a script has no bracket and no quote open. -/
theorem encloses (h : Along script false []) : Brackets.parentheses.Encloses script := by
  obtain ⟨w, hw, hfeed⟩ := h.fed
  rw [List.append_nil] at hw
  exact encloses_parentheses_iff.mpr (hw ▸ hfeed)

/-- What the lexer takes with a character leads a body to the same quotes. -/
theorem pass (w : List Char) (ss : List Stretch) {quoted' : Bool}
    (h : Along script quoted (c :: (w ++ y))) (hpassage : passage quoted c (w ++ y) = ⟨ss, quoted', y⟩)
    (hfeed : (∀ p ∈ ss, p.Level) →
      (Nesting.standing quoted).feedAll (c :: w) = some (.standing quoted')) :
    Along script quoted' y := by
  obtain ⟨⟨v, hv, hstands⟩, hlevel⟩ := h
  rw [stretches_cons, hpassage] at hlevel
  refine ⟨⟨v ++ c :: w, by simp [hv], ?_⟩, fun p hp => hlevel p (List.mem_append_right _ hp)⟩
  rw [Nesting.feedAll_append, hstands]
  exact hfeed fun p hp => hlevel p (List.mem_append_left _ hp)

/-- An inert character leads on for both. -/
theorem inert (h : Along script quoted (c :: y)) (hc : isInert c = true) : Along script quoted y := by
  simp only [isInert, Bool.not_eq_true', Bool.or_eq_false_iff, decide_eq_false_iff_not] at hc
  refine h.pass [] [] ?_ fun _ => ?_
  · simp [passage, hc]
  · cases quoted <;> simp [Nesting.feedAll_cons, Nesting.feed, Nesting.standing, hc, Brackets.parentheses]

/-- Inside double quotes only these characters are more than text. -/
theorem inner (h : Along script true (c :: y)) (hquote : c ≠ '"') (hdollar : c ≠ '$')
    (hbackslash : c ≠ '\\') : Along script true y := by
  refine h.pass [] [] ?_ fun _ => ?_
  · simp [passage, hquote, hdollar, hbackslash]
  · simp [Nesting.feedAll_cons, Nesting.feed, Nesting.standing, hquote, hbackslash]

/-- A double quote opens or closes quotes for both. -/
theorem doubleQuote (h : Along script quoted ('"' :: y)) : Along script (!quoted) y := by
  refine h.pass [] [] rfl fun _ => ?_
  cases quoted <;> rfl

/-- A backslash takes the character behind it for both, but for a carriage return in between. -/
theorem backslash (h : Along script quoted ('\\' :: rest))
    (hrest : rest = c :: y ∧ c ≠ '\r' ∨ rest = '\r' :: c :: y) : Along script quoted y := by
  rcases hrest with ⟨rfl, hc⟩ | rfl
  · refine h.pass [c] [] ?_ fun _ => ?_
    · simp [passage, backslashPassage, hc]
    · cases quoted <;> rfl
  · refine h.pass ['\r', c] [⟨quoted, [c]⟩] rfl fun hlevel => ?_
    have hc := hlevel ⟨quoted, [c]⟩ (by simp)
    cases quoted <;> exact hc

/-- Single quotes with the text between them. -/
theorem singleQuotes (h : Along script false ('\'' :: (cs ++ '\'' :: y))) (hcs : '\'' ∉ cs) :
    Along script false y := by
  have hinside : ({ quoting := .single } : Nesting).feedAll cs = some { quoting := .single } := by
    clear h
    induction cs with
    | nil => rfl
    | cons c cs ih =>
      obtain ⟨hc, hcs⟩ : '\'' ≠ c ∧ '\'' ∉ cs := by simpa using hcs
      rw [Nesting.feedAll_cons]
      simp only [Nesting.feed, hc.symm, Bool.false_eq_true, if_false]
      exact ih hcs
  have hpassage : passage false '\'' (cs ++ '\'' :: y) = ⟨[], false, y⟩ := by
    have hspan := (span_ne hcs (y := '\'' :: y) (by simp)).2
    change (⟨[], false, ((cs ++ '\'' :: y).dropWhile (· ≠ '\'')).drop 1⟩ : Passage) = _
    rw [hspan]
    rfl
  rw [show cs ++ '\'' :: y = (cs ++ ['\'']) ++ y by simp] at h hpassage
  exact h.pass _ _ hpassage fun _ => Nesting.feedAll_between (v := ['\'']) rfl hinside rfl

/-- A comment up to the end of its line. -/
theorem comment (h : Along script false ('#' :: (cs ++ y))) (hcs : '\n' ∉ cs)
    (hy : ∀ c ∈ y.head?, c = '\n') : Along script false y := by
  obtain ⟨htake, hdrop⟩ := span_ne hcs hy
  refine h.pass cs [⟨false, cs⟩] ?_ fun hlevel => hlevel ⟨false, cs⟩ (by simp)
  change (⟨[⟨false, (cs ++ y).takeWhile (· ≠ '\n')⟩], false, (cs ++ y).dropWhile (· ≠ '\n')⟩ :
    Passage) = _
  rw [htake, hdrop]

/-- An expansion in braces. -/
theorem braces (h : Along script quoted ('$' :: '{' :: (body ++ '}' :: y)))
    (hbody : Brackets.braces.Encloses body) : Along script quoted y := by
  have hsplit : Brackets.braces.split {} (body ++ '}' :: y) = some (body, y) :=
    Brackets.split_of_encloses hbody y
  have hpassage : passage quoted '$' ('{' :: (body ++ '}' :: y)) = ⟨[⟨quoted, body⟩], quoted, y⟩ := by
    simp [passage, dollarPassage, hsplit]
  rw [show '{' :: (body ++ '}' :: y) = ('{' :: body ++ ['}']) ++ y by simp] at h hpassage
  refine h.pass _ _ hpassage fun hlevel => ?_
  refine Nesting.feedAll_between (v := ['$', '{']) ?_ (hlevel ⟨quoted, body⟩ (by simp)) ?_ <;>
    cases quoted <;> rfl

/-- A command substitution. -/
theorem parentheses (h : Along script quoted ('$' :: '(' :: (body ++ ')' :: y)))
    (hbody : Brackets.parentheses.Encloses body) : Along script quoted y := by
  have hsplit : Brackets.parentheses.split {} (body ++ ')' :: y) = some (body, y) :=
    Brackets.split_of_encloses hbody y
  have hpassage : passage quoted '$' ('(' :: (body ++ ')' :: y)) =
      ⟨if quoted then [⟨quoted, body⟩] else [], quoted, y⟩ := by
    simp [passage, dollarPassage, hsplit]
  rw [show '(' :: (body ++ ')' :: y) = ('(' :: body ++ [')']) ++ y by simp] at h hpassage
  refine h.pass _ _ hpassage fun hlevel => ?_
  cases quoted with
  | true =>
    -- inside quotes a parenthesis is text, and the body is a stretch
    exact Nesting.feedAll_between (v := ['$', '(']) rfl (hlevel ⟨true, body⟩ (by simp)) rfl
  | false =>
    -- outside quotes the body stands one bracket deeper
    have hdeeper := Nesting.feedAll_deeper (encloses_parentheses_iff.mp hbody)
    exact Nesting.feedAll_between (v := ['$', '(']) rfl hdeeper rfl

/-- A parameter that is a single character. -/
theorem special (h : Along script quoted ('$' :: c :: y)) (hc : isSpecialParameter c = true) :
    Along script quoted y := by
  have hnone : ['{', '(', '\\', '"', '\'', ')'].any isSpecialParameter = false := by decide
  have hne : ∀ d ∈ ['{', '(', '\\', '"', '\'', ')'], c ≠ d := by
    rintro d hd rfl
    exact List.any_eq_false.mp hnone c hd hc
  simp only [List.mem_cons, List.not_mem_nil, or_false, forall_eq_or_imp, forall_eq] at hne
  refine h.pass [c] [] ?_ fun _ => ?_
  · simp [passage, dollarPassage, hne, hc]
  · cases quoted <;>
      simp [Nesting.feedAll_cons, Nesting.feed, Nesting.standing, Brackets.parentheses, hne]

/-- A dollar sign that takes nothing with it. -/
theorem dollar (h : Along script quoted ('$' :: y)) (hy : ∀ c ∈ y.head?,
    c ≠ '{' ∧ c ≠ '(' ∧ isSpecialParameter c = false) : Along script quoted y := by
  refine h.pass [] [] ?_ fun _ => ?_
  · cases y with
    | nil => rfl
    | cons c y =>
      obtain ⟨hbrace, hparenthesis, hspecial⟩ := hy c rfl
      simp [passage, dollarPassage, hbrace, hparenthesis, hspecial]
  · cases quoted <;> rfl

end Along

end ShellScript
