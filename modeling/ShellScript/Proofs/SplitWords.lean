import ShellScript.Proofs.Backslashes
import ShellScript.Proofs.Cancellation
import ShellScript.Proofs.ChosenSeparators
import ShellScript.Proofs.Parameters
import ShellScript.Proofs.RoundTrip

/-!
# Words that a line continuation splits

A word of text and references can be written on two lines, with a backslash before the line end between its
parts, and so it can between double quotes. It is one word still, but the reader looks at each part by itself:
the word stands for what the first part stands for and then what the second does (`split_stands`). That is what
the word stands for when it is not split, whatever the values of names are, unless the split falls behind a
dollar sign or into a name (`Cuts`), since a name ends where its characters do.
-/

namespace ShellScript

/-! ## The parts of a word -/

/-- A part of a word: a character that stands for itself, or a reference without braces. -/
inductive WordPart
  | char (c : Char)
  | reference (first : Char) (tail : List Char)
  deriving DecidableEq, Repr

namespace WordPart

/-- How the part is written. -/
def source : WordPart → List Char
  | char c => [c]
  | reference first tail => '$' :: first :: tail

/-- Whether the part is text that joins without quotes, or names an identifier. -/
def Proper : WordPart → Prop
  | char c => isShellSafe c = true
  | reference first tail => isNameStart first = true ∧ ∀ c ∈ tail, isNameChar c = true

/-- The element that is read for the part, but for its origin. -/
def element : WordPart → Element
  | char c => .literal ⟨c.toString, default⟩
  | reference first tail => .reference { name := String.ofList (first :: tail) }

/-- The text of the part when names have values. -/
def text (m : VariableMap) : WordPart → String
  | char c => c.toString
  | reference first tail => (m.get? (String.ofList (first :: tail))).getD ""

end WordPart

/-- Whether a source is written from proper parts. -/
def IsWord (w : List Char) : Prop :=
  ∃ ps : List WordPart, (∀ p ∈ ps, p.Proper) ∧ w = ps.flatMap WordPart.source

/-- The parts that a source is read as. A name goes on as long as there are characters of names. -/
def munch : List Char → List WordPart
  | [] => []
  | '$' :: first :: rest =>
    if isNameStart first then
      .reference first (rest.takeWhile isNameChar) :: munch (rest.dropWhile isNameChar)
    else .char '$' :: munch (first :: rest)
  | c :: rest => .char c :: munch rest
  termination_by cs => cs.length
  decreasing_by
    · have := (List.dropWhile_sublist isNameChar (l := rest)).length_le
      simp only [List.length_cons]
      omega
    · simp
    · simp

/-- The text that a source stands for when names have values. -/
def expansion (m : VariableMap) (w : List Char) : String :=
  String.join ((munch w).map (WordPart.text m))

/-- Whether a split falls behind a dollar sign or into the name behind it. -/
def Cuts (u v : List Char) : Prop :=
  ∃ front name, u = front ++ '$' :: name ∧ (∀ c ∈ name, isNameChar c = true) ∧
    ∃ d ∈ v.head?, isNameChar d = true

section

variable {u v w name rest : List Char} {c first : Char}

/-- A character other than a dollar sign is a part. -/
theorem munch_cons (hc : c ≠ '$') : munch (c :: rest) = .char c :: munch rest := by
  rw [munch]
  rintro first rest' rfl
  exact absurd rfl hc

/-- A dollar sign before an identifier is a reference, and the name goes on as far as it can. -/
theorem munch_reference (hfirst : isNameStart first = true) :
    munch ('$' :: first :: rest) =
      .reference first (rest.takeWhile isNameChar) :: munch (rest.dropWhile isNameChar) := by
  rw [munch, if_pos hfirst]

/-- A dollar sign before anything else is a part. -/
theorem munch_dollar (hrest : ∀ d ∈ rest.head?, isNameStart d = false) :
    munch ('$' :: rest) = .char '$' :: munch rest := by
  cases rest with
  | nil => simp [munch]
  | cons d rest => rw [munch, if_neg (by simp [hrest d rfl])]

/-- Induction along the parts of a source. -/
theorem munch_induction {motive : List Char → Prop} (nil : motive [])
    (reference : ∀ first rest, isNameStart first = true → motive (rest.dropWhile isNameChar) →
      motive ('$' :: first :: rest))
    (dollar : ∀ rest, (∀ d ∈ rest.head?, isNameStart d = false) → motive rest → motive ('$' :: rest))
    (char : ∀ c rest, c ≠ '$' → motive rest → motive (c :: rest)) (w : List Char) : motive w := by
  induction w using munch.induct with
  | case1 => exact nil
  | case2 first rest hfirst ih => exact reference first rest hfirst ih
  | case3 first rest hfirst ih => exact dollar _ (by simpa using hfirst) ih
  | case4 c rest hc ih =>
    by_cases hdollar : c = '$'
    · subst hdollar
      cases rest with
      | nil => exact dollar [] (by simp) ih
      | cons first rest => exact (hc first rest rfl rfl).elim
    · exact char c rest hdollar ih

/-- A source has parts. -/
theorem munch_ne_nil (hw : w ≠ []) : munch w ≠ [] := by
  induction w using munch_induction with
  | nil => exact absurd rfl hw
  | reference first rest hfirst _ => simp [munch_reference hfirst]
  | dollar rest hrest _ => simp [munch_dollar hrest]
  | char c rest hc _ => simp [munch_cons hc]

/-- No name has a dollar sign in it. -/
theorem ne_dollar_of_isNameChar (hc : isNameChar c = true) : c ≠ '$' := by
  rintro rfl
  exact absurd hc (by decide)

/-- Without a dollar sign, characters of names stand for themselves. -/
theorem munch_names (hname : ∀ c ∈ name, isNameChar c = true) (rest : List Char) :
    munch (name ++ rest) = name.map .char ++ munch rest := by
  induction name with
  | nil => rfl
  | cons c name ih =>
    have hc := ne_dollar_of_isNameChar (hname c (by simp))
    rw [List.cons_append, munch_cons hc, ih fun d hd => hname d (by simp [hd])]
    rfl

/-- More source in front changes nothing about where a split falls. -/
theorem Cuts.of_suffix (front : List Char) (h : Cuts u v) : Cuts (front ++ u) v := by
  obtain ⟨before, name, rfl, hname, hv⟩ := h
  exact ⟨front ++ before, name, by simp, hname, hv⟩

/-- Behind a dollar sign and a name, only what is no character of a name does not cut it. -/
theorem not_isNameChar_of_not_cuts (h : ¬ Cuts ('$' :: name) v) (hname : ∀ c ∈ name, isNameChar c = true) :
    ∀ d ∈ v.head?, isNameChar d = false := by
  intro d hd
  rw [← Bool.not_eq_true]
  intro hchar
  exact h ⟨[], name, rfl, hname, d, hd, hchar⟩

/-- What no name goes on with starts none. -/
theorem not_isNameStart_of_not_isNameChar (hc : isNameChar c = false) : isNameStart c = false := by
  rw [← Bool.not_eq_true] at hc ⊢
  exact fun hstart => hc (isNameChar_of_isNameStart hstart)

/-- A name that ends before a split is not changed by what is behind the split. -/
theorem munch_reference_append (hfirst : isNameStart first = true) (h : ¬ Cuts ('$' :: first :: rest) v) :
    munch ('$' :: first :: (rest ++ v)) =
      .reference first (rest.takeWhile isNameChar) :: munch (rest.dropWhile isNameChar ++ v) := by
  rw [munch_reference hfirst]
  by_cases hall : ∀ d ∈ rest, isNameChar d = true
  · -- the name takes up to the split, and nothing behind it goes on with it
    have hnames : ∀ d ∈ first :: rest, isNameChar d = true :=
      List.forall_mem_cons.mpr ⟨isNameChar_of_isNameStart hfirst, hall⟩
    have hv := not_isNameChar_of_not_cuts h hnames
    have hstop : v.takeWhile isNameChar = [] ∧ v.dropWhile isNameChar = v := by
      cases v with
      | nil => exact ⟨rfl, rfl⟩
      | cons d v => simp [hv d rfl]
    rw [List.takeWhile_append_of_pos hall, List.dropWhile_append_of_pos hall, hstop.1, hstop.2,
      List.takeWhile_eq_self_iff.mpr hall, List.dropWhile_eq_nil_iff.mpr hall, List.append_nil,
      List.nil_append]
  · -- the name ends before the split
    have hdrop : rest.dropWhile isNameChar ≠ [] := fun hnil => hall (List.dropWhile_eq_nil_iff.mp hnil)
    have htake : (rest.takeWhile isNameChar).length ≠ rest.length := by
      intro hlength
      have heq := List.IsPrefix.eq_of_length (List.takeWhile_prefix isNameChar) hlength
      exact hall (List.takeWhile_eq_self_iff.mp heq)
    rw [List.takeWhile_append, List.dropWhile_append, if_neg htake, if_neg (by simpa using hdrop)]

/-- A source that is split elsewhere has the parts of the two that it is split into. -/
theorem munch_append (h : ¬ Cuts u v) : munch (u ++ v) = munch u ++ munch v := by
  induction u using munch_induction with
  | nil => simp [munch]
  | reference first rest hfirst ih =>
    have hrest : ¬ Cuts (rest.dropWhile isNameChar) v := fun hcuts => h <| by
      have hwhole := hcuts.of_suffix ('$' :: first :: rest.takeWhile isNameChar)
      rwa [List.cons_append, List.cons_append, List.takeWhile_append_dropWhile] at hwhole
    rw [List.cons_append, List.cons_append, munch_reference_append hfirst h, munch_reference hfirst,
      ih hrest, List.cons_append]
  | dollar rest hstart ih =>
    have hrest : ¬ Cuts rest v := fun hcuts => h (hcuts.of_suffix ['$'])
    have hbehind : ∀ d ∈ (rest ++ v).head?, isNameStart d = false := by
      cases rest with
      | nil =>
        -- the dollar sign stands right before the split
        intro d hd
        exact not_isNameStart_of_not_isNameChar (not_isNameChar_of_not_cuts h (by simp) d hd)
      | cons first rest => exact hstart
    rw [List.cons_append, munch_dollar hbehind, munch_dollar hstart, ih hrest, List.cons_append]
  | char c rest hc ih =>
    have hrest : ¬ Cuts rest v := fun hcuts => h (hcuts.of_suffix [c])
    rw [List.cons_append, munch_cons hc, munch_cons hc, ih hrest, List.cons_append]

/-! ## The texts of words -/

/-- A split that does not cut a reference leaves the text as it is. -/
theorem expansion_append (m : VariableMap) (h : ¬ Cuts u v) :
    expansion m (u ++ v) = expansion m u ++ expansion m v := by
  simp [expansion, munch_append h]

end

/-! ## Sources of words -/

/-- Whether every character of a source is text or a dollar sign with an identifier behind it. At its end, a
dollar sign may also have a backslash behind it. -/
def Wordlike (rest : List Char) : List Char → Prop
  | [] => True
  | c :: cs => (isShellSafe c = true ∨ c = '$' ∧
      ((∃ d ∈ cs.head?, isNameStart d = true) ∨ cs = [] ∧ rest.head? = some '\\')) ∧ Wordlike rest cs

/-- Characters of names join text. -/
theorem isShellSafe_of_isNameChar {c : Char} (hc : isNameChar c = true) : isShellSafe c = true := by
  simp only [isNameChar, Bool.or_eq_true, decide_eq_true_eq] at hc
  rcases hc with hc | rfl
  · simp [isShellSafe, hc]
  · rfl

namespace Wordlike

variable {u v w rest : List Char}

/-- Text may stand in front. -/
theorem safe_append (h : Wordlike rest v) (hu : ∀ c ∈ u, isShellSafe c = true) : Wordlike rest (u ++ v) := by
  induction u with
  | nil => exact h
  | cons c u ih => exact ⟨.inl (hu c (by simp)), ih fun d hd => hu d (by simp [hd])⟩

/-- What is left of such a source is one. -/
theorem right (h : Wordlike rest (u ++ v)) : Wordlike rest v := by
  induction u with
  | nil => exact h
  | cons c u ih => exact ih h.2

/-- A word goes on being one before anything else. -/
theorem before (h : Wordlike [] w) (rest : List Char) : Wordlike rest w := by
  induction w with
  | nil => trivial
  | cons c w ih =>
    refine ⟨h.1.imp_right fun ⟨hc, hbehind⟩ => ⟨hc, .inl ?_⟩, ih h.2⟩
    rcases hbehind with hstart | ⟨-, hrest⟩
    · exact hstart
    · cases hrest

/-- What is left of a split is one before a backslash. -/
theorem left (h : Wordlike [] (u ++ v)) (hrest : rest.head? = some '\\') : Wordlike rest u := by
  induction u with
  | nil => trivial
  | cons c u ih =>
    refine ⟨h.1.imp_right fun ⟨hc, hbehind⟩ => ⟨hc, ?_⟩, ih h.2⟩
    cases u with
    | nil => exact .inr ⟨rfl, hrest⟩
    | cons d u =>
      rcases hbehind with hstart | ⟨-, hnil⟩
      · exact .inl hstart
      · cases hnil

/-- A word is such a source up to its end. -/
theorem of_isWord (h : IsWord w) : Wordlike [] w := by
  obtain ⟨ps, hproper, rfl⟩ := h
  induction ps with
  | nil => trivial
  | cons p ps ih =>
    have hp := hproper p (by simp)
    have hps := ih fun q hq => hproper q (by simp [hq])
    cases p with
    | char c => exact ⟨.inl hp, hps⟩
    | reference first tail =>
      have hsafe : ∀ c ∈ first :: tail, isShellSafe c = true := by
        intro c hc
        rcases List.mem_cons.mp hc with rfl | hc
        · exact isShellSafe_of_isNameChar (isNameChar_of_isNameStart hp.1)
        · exact isShellSafe_of_isNameChar (hp.2 c hc)
      exact ⟨.inr ⟨rfl, .inl ⟨first, rfl, hp.1⟩⟩, hps.safe_append hsafe⟩

/-- A dollar sign has an identifier behind it, unless the backslash is next. -/
theorem behind_dollar (h : Wordlike rest ('$' :: w)) :
    (∃ d ∈ w.head?, isNameStart d = true) ∨ w = [] ∧ rest.head? = some '\\' := by
  rcases h.1 with hsafe | ⟨-, hbehind⟩
  · exact absurd hsafe (by decide)
  · exact hbehind

/-- Every other character joins text. -/
theorem isShellSafe_of_ne {c : Char} (h : Wordlike rest (c :: w)) (hc : c ≠ '$') : isShellSafe c = true :=
  h.1.resolve_right fun hbehind => hc hbehind.1

end Wordlike

/-! ## Splits that can be seen -/

section

variable {u v name : List Char}

/-- A name without a value takes with it all characters behind it that it can. -/
theorem expansion_name (hname : ∀ c ∈ name, isNameChar c = true)
    (hstart : ∃ d ∈ (name ++ v).head?, isNameStart d = true) :
    expansion {} ('$' :: (name ++ v)) = expansion {} (v.dropWhile isNameChar) := by
  obtain ⟨first, hfirst, hstart⟩ := hstart
  obtain ⟨rest, hrest⟩ : ∃ rest, name ++ v = first :: rest := List.head?_eq_some_iff.mp hfirst
  have hdrop : rest.dropWhile isNameChar = v.dropWhile isNameChar := by
    have hboth : (name ++ v).dropWhile isNameChar = v.dropWhile isNameChar :=
      List.dropWhile_append_of_pos hname
    rw [← hboth, hrest, List.dropWhile_cons, if_pos (isNameChar_of_isNameStart hstart)]
  rw [hrest, expansion, munch_reference hstart, hdrop, List.map_cons, String.join_cons]
  exact String.empty_append

/-- Without a dollar sign before them, they are text. -/
theorem expansion_names (m : VariableMap) (v : List Char) :
    expansion m v = String.ofList (v.takeWhile isNameChar) ++ expansion m (v.dropWhile isNameChar) := by
  have hnames : ∀ c ∈ v.takeWhile isNameChar, isNameChar c = true := fun c hc => List.mem_takeWhile_imp hc
  have hchars (name : List Char) :
      String.join ((name.map WordPart.char).map (WordPart.text m)) = String.ofList name := by
    rw [← String.toList_inj]
    simp [WordPart.text, List.flatMap_map]
  conv => lhs; rw [← List.takeWhile_append_dropWhile (p := isNameChar) (l := v)]
  rw [expansion, munch_names hnames, List.map_append, String.join_append, hchars]
  rfl

/-- A word that is cut stands for more text, if no name has a value, than when it is not split. -/
theorem expansion_ne_of_cuts (hword : Wordlike [] (u ++ v)) (hcuts : Cuts u v) :
    expansion {} u ++ expansion {} v ≠ expansion {} (u ++ v) := by
  obtain ⟨front, name, rfl, hname, d, hd, hchar⟩ := hcuts
  have hfront (rest : List Char) : ¬ Cuts front ('$' :: rest) := by
    rintro ⟨-, -, -, -, c, ⟨rfl⟩, hc⟩
    exact absurd hc (by decide)
  rw [List.append_assoc, List.cons_append] at hword ⊢
  have hstart := hword.right.behind_dollar.resolve_right (by simp)
  have hmore : (v.takeWhile isNameChar).length ≠ 0 := by
    obtain ⟨rest, rfl⟩ := List.head?_eq_some_iff.mp hd
    simp [hchar]
  intro heq
  have hlength := congrArg String.length heq
  rw [expansion_append {} (hfront _), expansion_append {} (hfront _), expansion_name hname hstart,
    expansion_names {} v] at hlength
  simp only [String.length_append, String.length_ofList] at hlength
  omega

end

/-! ## Gathering words -/

/-- Whether what was gathered is these elements, but for origins and for how literal text is cut. -/
def Gathering.Fuses (g : Gathering) (es : List Element) : Prop :=
  ∀ filename, fuse (g.settle filename) = fuse es

namespace Gathering.Fuses

variable {g : Gathering} {es : List Element}

/-- Nothing is gathered at the start of a literal. -/
theorem start (origin : Option Position) : Gathering.Fuses { draft := { origin } } [] :=
  fun _ => rfl

/-- More elements may be gathered when the text is over. -/
theorem settled_append (h : g.Fuses es) (filename : String) (fs : List Element) :
    Gathering.Fuses { elements := g.settle filename ++ fs } (es ++ fs) := by
  intro filename'
  rw [Lexer.settle_elements]
  exact fuse_append_congr (h filename) rfl

/-- When the text is over, the same was gathered. -/
theorem settled (h : g.Fuses es) (filename : String) :
    Gathering.Fuses { elements := g.settle filename } es := by
  intro filename'
  rw [Lexer.settle_elements]
  exact h filename

/-- A character that joins the text before it is one more literal. -/
theorem push (h : g.Fuses es) (c : Char) (p : Position) :
    (g.push c p).Fuses (es ++ [.literal ⟨c.toString, default⟩]) := by
  intro filename
  refine Eq.trans ?_ (fuse_append_congr (h filename) rfl)
  obtain ⟨fs, ⟨text, origin⟩⟩ := g
  have hpush : Gathering.settle (Gathering.push ⟨fs, ⟨text, origin⟩⟩ c p) filename =
      fs ++ [.literal ⟨text.push c, ⟨filename, origin.getD p⟩⟩] := by
    simp [Gathering.settle, Gathering.push, Draft.push]
  rw [hpush]
  by_cases htext : text = ""
  · subst htext
    exact fuse_append_congr rfl (prepend_literal_congr rfl [])
  · have hsettle : Gathering.settle ⟨fs, ⟨text, origin⟩⟩ filename =
        fs ++ [.literal ⟨text, ⟨filename, origin.getD .start⟩⟩] := by
      simp [Gathering.settle, htext]
    rw [hsettle, List.append_assoc]
    exact fuse_append_congr rfl (prepend_prepend_literal (String.push_eq_append ..) []).symm

/-- If anything was gathered, there are elements. -/
theorem settle_ne_nil (h : g.Fuses es) (hes : fuse es ≠ []) (filename : String) : g.settle filename ≠ [] := by
  intro hnil
  have hfuse := h filename
  rw [hnil] at hfuse
  exact hes hfuse.symm

end Gathering.Fuses

namespace Lexer

variable {ι β : Type} {step : ι → Gathering → Lexer Cursor → Read Cursor (Progress Gathering β)}
variable {es fs : List Element} {source source' rest lineEnd : List Char}

/-- Whether a step takes a source before `rest` and adds elements to what was gathered, in all of some loops
alike. -/
def Accepts (step : ι → Gathering → Lexer Cursor → Read Cursor (Progress Gathering β))
    (source rest : List Char) (es : List Element) : Prop :=
  ∀ (g : Gathering) (l : Lexer Cursor), l.input.rest = Utf8.encodeChars (source ++ rest) → ∃ g' l',
    (∀ i, step i g l = (.ok (.more g'), l')) ∧ l'.input.rest = Utf8.encodeChars rest ∧
      ∀ fs, g.Fuses fs → g'.Fuses (fs ++ es)

/-- What the loop over a token and the one between double quotes have in common: they take the parts of a word,
and a line end behind a backslash adds nothing. -/
structure GathersWords (step : ι → Gathering → Lexer Cursor → Read Cursor (Progress Gathering β)) : Prop where
  char {c : Char} (safe : isShellSafe c = true) (rest : List Char) :
    Accepts step [c] rest [(WordPart.char c).element]
  reference {first : Char} {tail rest : List Char} (start : isNameStart first = true)
    (all : ∀ c ∈ tail, isNameChar c = true) (stops : ∀ c ∈ rest.head?, isNameChar c = false) :
    Accepts step ('$' :: first :: tail) rest [(WordPart.reference first tail).element]
  /-- A dollar sign that introduces nothing. -/
  dollar {rest : List Char} (bare : rest.head? = some '\\') :
    Accepts step ['$'] rest [(WordPart.char '$').element]
  continuation {lineEnd : List Char} (line : lineEnd ∈ [['\n'], ['\r', '\n']]) (rest : List Char) :
    Accepts step ('\\' :: lineEnd) rest []

/-- A dollar sign before a backslash introduces nothing, in double quotes or not. -/
theorem bare_of_backslash (dollar : Position) {l : Lexer Cursor}
    (h : l.input.rest = Utf8.encodeChars ('\\' :: rest)) : ∃ l',
    l.readDollar dollar = (.ok .bare, l') ∧ l.readInnerDollar dollar = (.ok .bare, l') ∧
      l'.input.rest = l.input.rest := by
  obtain ⟨l₁, hn, -, hback⟩ := nextRune_takes (c := '\\') h
  have hinner : l.readInnerDollar dollar = (.ok .bare, l₁.unreadRune) := by
    simp only [readInnerDollar, hn]
    rfl
  exact ⟨l₁.unreadRune, (readDollar_eq_readInnerDollar dollar hn (by decide) (by decide)).trans hinner,
    hinner, hback.rest_eq rfl⟩

/-- A line end behind a backslash is read as a newline. -/
theorem nextPastReturn_lineEnd (hline : lineEnd ∈ [['\n'], ['\r', '\n']]) {l : Lexer Cursor}
    (h : l.input.rest = Utf8.encodeChars ('\\' :: lineEnd ++ rest)) : ∃ l₁ l₂,
    l.nextRune = (.ok (some '\\'), l₁) ∧ l₁.nextPastReturn = (.ok (some '\n'), l₂) ∧
      l₂.input.rest = Utf8.encodeChars rest := by
  rw [Utf8.encodeChars_append] at h
  simp only [List.mem_cons, List.not_mem_nil, or_false] at hline
  rcases hline with rfl | rfl
  · obtain ⟨l₁, l₂, hn, hpast, -, -, hrest⟩ := nextPastReturn_takes (by decide) h
    exact ⟨l₁, l₂, hn, hpast, hrest⟩
  · obtain ⟨l₁, l₂, hn, hpast, -, -, hrest⟩ := nextPastReturn_takes_return h
    exact ⟨l₁, l₂, hn, hpast, hrest⟩

section

variable {escape : EscapeSet}

/-- The loop over a token is such a loop. -/
theorem gathersWords_wordStep (hdollar : escape.contains '$' = false)
    (hbackslash : escape.contains '\\' = false) : GathersWords (wordStep (σ := Cursor) escape) where
  char {c} safe rest g l h := by
    obtain ⟨l', hn, htakes, -⟩ := nextRune_takes (c := c) h
    exact ⟨g.push c l.position, l', fun commandOpen => adds_wordStep escape commandOpen safe hn,
      htakes.rest_eq h, fun fs hfs => hfs.push c l.position⟩
  reference {first tail rest} start all stops g l h := by
    obtain ⟨l₁, hn, htakes, -⟩ := nextRune_takes (c := '$') h
    obtain ⟨l', hr, -, hrest⟩ := introduces_identifier start all stops l₁ l.position (htakes.rest_eq h)
    refine ⟨_, l', fun commandOpen => ?_, hrest, fun fs hfs => hfs.settled_append l₁.filename _⟩
    unfold wordStep wordRune
    simp only [hn, role_dollar hdollar, hr, Except.map]
    rfl
  dollar {rest} bare g l h := by
    -- in front of a backslash no name and no quote follows, so the dollar sign is text
    obtain ⟨rest, rfl⟩ := List.head?_eq_some_iff.mp bare
    obtain ⟨l₁, hn, htakes, -⟩ := nextRune_takes (c := '$') h
    obtain ⟨l', hr, -, hrest⟩ := bare_of_backslash l.position (htakes.rest_eq h)
    refine ⟨Gathering.push { elements := g.settle l₁.filename } '$' l.position, l', fun commandOpen => ?_,
      hrest.trans (htakes.rest_eq h), fun fs hfs => ?_⟩
    · unfold wordStep wordRune
      simp only [hn, role_dollar hdollar, hr]
    · exact (hfs.settled l₁.filename).push '$' l.position
  continuation {lineEnd} line rest g l h := by
    obtain ⟨l₁, l₂, hn, hpast, hrest⟩ := nextPastReturn_lineEnd line h
    refine ⟨{ elements := g.settle l₁.filename }, l₂, fun commandOpen => ?_, hrest, fun fs hfs => ?_⟩
    · unfold wordStep wordRune
      simp only [hn, role_backslash hbackslash, hpast]
    · rw [List.append_nil]
      exact hfs.settled l₁.filename

/-- Between double quotes there is one loop. -/
theorem gathersWords_doubleQuoteStep (opening : Position) :
    GathersWords fun _ : Unit => doubleQuoteStep (σ := Cursor) opening where
  char {c} safe rest g l h := by
    obtain ⟨l', hn, htakes, -⟩ := nextRune_takes (c := c) h
    -- what joins text without quotes is not special between them
    have hplain : c ∉ ['"', '$', '`', '\\'] := by
      intro hspecial
      simp only [List.mem_cons, List.not_mem_nil, or_false] at hspecial
      rcases hspecial with rfl | rfl | rfl | rfl <;> exact absurd safe (by decide)
    exact ⟨g.push c l.position, l', fun _ => adds_doubleQuoteStep opening hplain hn,
      htakes.rest_eq h, fun fs hfs => hfs.push c l.position⟩
  reference {first tail rest} start all stops g l h := by
    obtain ⟨l₁, hn, htakes, -⟩ := nextRune_takes (c := '$') h
    obtain ⟨l', -, hr, hrest⟩ := introduces_identifier start all stops l₁ l.position (htakes.rest_eq h)
    refine ⟨_, l', fun _ => ?_, hrest, fun fs hfs => hfs.settled_append l.filename _⟩
    unfold doubleQuoteStep
    simp only [hn, hr, Except.map]
    rfl
  dollar {rest} bare g l h := by
    obtain ⟨rest, rfl⟩ := List.head?_eq_some_iff.mp bare
    obtain ⟨l₁, hn, htakes, -⟩ := nextRune_takes (c := '$') h
    obtain ⟨l', -, hr, hrest⟩ := bare_of_backslash l.position (htakes.rest_eq h)
    refine ⟨Gathering.push { elements := g.settle l.filename } '$' l.position, l', fun _ => ?_,
      hrest.trans (htakes.rest_eq h), fun fs hfs => ?_⟩
    · unfold doubleQuoteStep
      simp only [hn, hr]
      rfl
    · exact (hfs.settled l.filename).push '$' l.position
  continuation {lineEnd} line rest g l h := by
    obtain ⟨l₁, l₂, hn, hpast, hrest⟩ := nextPastReturn_lineEnd line h
    refine ⟨g, l₂, fun _ => ?_, hrest, fun fs hfs => by rwa [List.append_nil]⟩
    unfold doubleQuoteStep
    simp only [hn, hpast]
    rfl

end

/-! ## Reading words -/

section

variable {takes : ∀ {i g g' l l'}, step i g l = (.ok (.more g'), l') → l'.size < l.size}

/-- Whether loops take a source before `rest` and add elements to what was gathered, all of them alike. -/
def Gathers (step : ι → Gathering → Lexer Cursor → Read Cursor (Progress Gathering β))
    (takes : ∀ {i g g' l l'}, step i g l = (.ok (.more g'), l') → l'.size < l.size)
    (source rest : List Char) (es : List Element) : Prop :=
  ∀ (g : Gathering) (l : Lexer Cursor), l.input.rest = Utf8.encodeChars (source ++ rest) → ∃ g' l',
    (∀ i, iterate (step i) takes g l = iterate (step i) takes g' l') ∧
      l'.input.rest = Utf8.encodeChars rest ∧ ∀ fs, g.Fuses fs → g'.Fuses (fs ++ es)

/-- A step that accepts a source is taken by its loop. -/
theorem Accepts.gathers (h : Accepts step source rest es) : Gathers step takes source rest es := by
  intro g l hl
  obtain ⟨g', l', hstep, hrest, hfuses⟩ := h g l hl
  refine ⟨g', l', fun i => ?_, hrest, hfuses⟩
  rw [iterate_eq, hstep]

/-- What is gathered one after the other is gathered together. -/
theorem Gathers.append (h : Gathers step takes source (source' ++ rest) es)
    (h' : Gathers step takes source' rest fs) :
    Gathers step takes (source ++ source') rest (es ++ fs) := by
  intro g l hl
  rw [List.append_assoc] at hl
  obtain ⟨g₁, l₁, hrun₁, hrest₁, hfuses₁⟩ := h g l hl
  obtain ⟨g₂, l₂, hrun₂, hrest₂, hfuses₂⟩ := h' g₁ l₁ hrest₁
  refine ⟨g₂, l₂, fun i => (hrun₁ i).trans (hrun₂ i), hrest₂, fun before hbefore => ?_⟩
  rw [← List.append_assoc]
  exact hfuses₂ _ (hfuses₁ before hbefore)

/-- An empty source adds nothing. -/
theorem Gathers.nil (rest : List Char) : Gathers step takes [] rest [] := by
  intro g l hl
  exact ⟨g, l, fun _ => rfl, hl, fun before hbefore => by rwa [List.append_nil]⟩

/-- A word is read as its parts. -/
theorem GathersWords.gathers (h : GathersWords step) {w : List Char} (hword : Wordlike rest w)
    (hstops : ∀ c ∈ rest.head?, isNameChar c = false) :
    Gathers step takes w rest ((munch w).map WordPart.element) := by
  induction w using munch_induction with
  | nil =>
    rw [munch]
    exact .nil rest
  | reference first tail hfirst ih =>
    have hsource : '$' :: first :: tail =
        ('$' :: first :: tail.takeWhile isNameChar) ++ tail.dropWhile isNameChar := by
      rw [List.cons_append, List.cons_append, List.takeWhile_append_dropWhile]
    have hleft : Wordlike rest (tail.dropWhile isNameChar) := by
      rw [hsource] at hword
      exact hword.right
    -- the name ends where other characters are left, or else with the word
    have hends : ∀ c ∈ (tail.dropWhile isNameChar ++ rest).head?, isNameChar c = false := by
      intro c hc
      cases hdrop : tail.dropWhile isNameChar with
      | nil => exact hstops c (by simpa [hdrop] using hc)
      | cons d more =>
        obtain rfl : d = c := by simpa [hdrop] using hc
        have hnot := List.head?_dropWhile_not isNameChar tail
        rwa [hdrop] at hnot
    have hname : ∀ c ∈ tail.takeWhile isNameChar, isNameChar c = true :=
      fun c hc => List.mem_takeWhile_imp hc
    rw [munch_reference hfirst, hsource]
    exact (h.reference hfirst hname hends).gathers.append (ih hleft)
  | dollar tail hstart ih =>
    -- only the end of the word can be behind it
    rcases hword.behind_dollar with ⟨d, hd, hname⟩ | ⟨rfl, hbare⟩
    · exact absurd hname (by simp [hstart d hd])
    · rw [munch_dollar hstart, munch]
      exact (h.dollar hbare).gathers
  | char c tail hc ih =>
    rw [munch_cons hc]
    exact (h.char (hword.isShellSafe_of_ne hc) _).gathers.append (ih hword.2)

/-- What is read of a word that is split is what is read of each part. -/
theorem GathersWords.gathers_split (h : GathersWords step) {u v : List Char}
    (hline : lineEnd ∈ [['\n'], ['\r', '\n']]) (hword : Wordlike [] (u ++ v))
    (hstops : ∀ c ∈ rest.head?, isNameChar c = false) :
    Gathers step takes (u ++ '\\' :: lineEnd ++ v) rest ((munch u ++ munch v).map WordPart.element) := by
  have hfirst : Gathers step takes u ('\\' :: lineEnd ++ v ++ rest) ((munch u).map WordPart.element) :=
    h.gathers (hword.left rfl) (by simp [isNameChar])
  have hsecond : Gathers step takes v rest ((munch v).map WordPart.element) :=
    h.gathers (hword.right.before rest) hstops
  have hbetween : Gathers step takes ('\\' :: lineEnd) (v ++ rest) [] := (h.continuation hline _).gathers
  have hboth := hfirst.append (hbetween.append hsecond)
  rwa [List.nil_append, ← List.map_append, ← List.append_assoc] at hboth

end

section

variable {escape : EscapeSet} {filename : String}

/-- A source that is gathered up to the end is one token. -/
theorem exists_isOneToken (filename : String) (hes : fuse es ≠ [])
    (h : Gathers (wordStep escape) size_wordStep_lt source [] es) :
    ∃ t, IsOneToken (Utf8.encodeChars source) filename escape t ∧ fuse t.elements = fuse es := by
  let l := (Parser.ofCursor (Utf8.encodeChars source) filename escape).lexer
  have hl : l.input.rest = Utf8.encodeChars (source ++ []) := by
    rw [List.append_nil]
    rfl
  obtain ⟨g, l₁, hrun, hrest, hfuses⟩ := h {} { l with tokenStart := l.position } hl
  have hg : g.Fuses es := hfuses [] (.start none)
  refine ⟨⟨g.settle l₁.filename⟩, isOneToken_of_cursor fun commandOpen => ?_, hg l₁.filename⟩
  obtain ⟨l₂, hend, hrest₂⟩ := wordStep_end escape commandOpen g hrest
  rw [Token.ofElements?_of_ne_nil (hg.settle_ne_nil hes l₁.filename)] at hend
  refine ⟨l₂, (hrun commandOpen).trans ?_, hrest₂⟩
  rw [iterate_eq, hend]

/-- Quotes that hold something close over it. -/
theorem closeQuotes_of_ne_nil {opening : Location} (hes : es ≠ []) : closeQuotes opening es = es := by
  unfold closeQuotes
  split
  · exact absurd rfl hes
  · rfl

/-- A source that is gathered between double quotes is one token, too. -/
theorem exists_isOneToken_quoted (filename : String) (hquote : escape.contains '"' = false) (hes : fuse es ≠ [])
    (h : ∀ opening, Gathers (fun _ : Unit => doubleQuoteStep opening) size_doubleQuoteStep_lt source ['"'] es) :
    ∃ t, IsOneToken (Utf8.encodeChars ('"' :: source ++ ['"'])) filename escape t ∧
      fuse t.elements = fuse es := by
  let l := (Parser.ofCursor (Utf8.encodeChars ('"' :: source ++ ['"'])) filename escape).lexer
  have hl : l.input.rest = String.utf8EncodeChar '"' ++ Utf8.encodeChars (source ++ ['"']) :=
    Parser.rest_ofCursor ..
  obtain ⟨l₁, hn, htakes, -⟩ := nextRune_takes hl
  obtain ⟨g, l₂, hrun, hrest, hfuses⟩ :=
    h l.position { draft := { origin := some l.position } } l₁ (htakes.rest_eq hl)
  have hg : g.Fuses es := hfuses [] (.start _)
  have hne := hg.settle_ne_nil hes l₂.filename
  have hclosing : l₂.input.rest = String.utf8EncodeChar '"' ++ [] := hrest
  obtain ⟨l₃, hn₃, htakes₃, -⟩ := nextRune_takes hclosing
  have hread : l₁.readDoubleQuoted l.position = (.ok (g.settle l₂.filename), l₃) := by
    refine (hrun ()).trans ?_
    rw [iterate_eq]
    unfold doubleQuoteStep
    simp only [hn₃, closeQuotes_of_ne_nil hne, if_true]
  refine ⟨⟨g.settle l₂.filename⟩, isOneToken_of_readOn hne fun commandOpen => ?_, hg l₂.filename⟩
  exact ⟨l₃, readOn_of_readDoubleQuoted hquote hn hread, htakes₃.rest_eq hclosing⟩

end

end Lexer

/-! ## What words stand for -/

/-- A word with a part does not fuse to nothing. -/
theorem fuse_parts_ne_nil {ps : List WordPart} (hps : ps ≠ []) : fuse (ps.map WordPart.element) ≠ [] := by
  obtain ⟨p, ps, rfl⟩ := List.exists_cons_of_ne_nil hps
  rw [List.map_cons, fuse_cons]
  cases p with
  | char c =>
    rcases literal_head_or (fuse (ps.map WordPart.element)) with ⟨l, rest, hrest⟩ | hrest
    · rw [hrest]
      simp [WordPart.element, Element.prepend]
    · rw [WordPart.element, prepend_literal hrest]
      simp
  | reference first tail => simp [WordPart.element, Element.prepend]

section

variable [Output] {m : VariableMap} {run : Run}

/-- The element of a part resolves to its text. -/
theorem resolve_element (hrun : run.cancelled = false) (p : WordPart) :
    p.element.resolve m.toResolver run = (.ok (p.text m), run) := by
  cases p with
  | char c => rfl
  | reference first tail =>
    refine (Action.checkCancelled_bind _ run).trans ?_
    rw [hrun]
    rfl

/-- A live run resolves parts to their texts, one after the other. -/
theorem resolve_parts (hrun : run.cancelled = false) (ps : List WordPart) :
    Token.resolve m.toResolver ⟨ps.map WordPart.element⟩ run =
      (.ok (String.join (ps.map (WordPart.text m))), run) := by
  induction ps with
  | nil => rfl
  | cons p ps ih =>
    rw [List.map_cons, resolve_cons, Action.bind_apply, resolve_element hrun]
    dsimp only
    rw [Action.bind_apply, ih, List.map_cons, String.join_cons]
    rfl

end

/-- Whether a source is one token, which stands for a text that depends on the values of names. -/
def StandsFor (escape : EscapeSet) (filename : String) (source : List Char) (text : VariableMap → String) :
    Prop :=
  ∃ t, IsOneToken (Utf8.encodeChars source) filename escape t ∧
    ∀ [Output] (m : VariableMap) (run : Run), run.cancelled = false →
      t.resolve m.toResolver run = (.ok (text m), run)

section

variable {escape : EscapeSet} {filename : String} {source u v w lineEnd : List Char}

/-- A source stands for one text only. -/
theorem StandsFor.unique {text text' : VariableMap → String} (h : StandsFor escape filename source text)
    (h' : StandsFor escape filename source text') : text = text' := by
  obtain ⟨t, ht, hresolve⟩ := h
  obtain ⟨t', ht', hresolve'⟩ := h'
  obtain rfl := ht.unique ht'
  funext m
  have hboth := (hresolve m {} rfl).symm.trans (hresolve' m {} rfl)
  exact Except.ok.inj (congrArg Prod.fst hboth)

/-- A token that fuses like parts stands for their texts. -/
theorem standsFor_of_fuse {ps : List WordPart}
    (h : ∃ t, IsOneToken (Utf8.encodeChars source) filename escape t ∧
      fuse t.elements = fuse (ps.map WordPart.element)) :
    StandsFor escape filename source fun m => String.join (ps.map (WordPart.text m)) := by
  obtain ⟨t, ht, hfuse⟩ := h
  refine ⟨t, ht, fun m run hrun => ?_⟩
  have hsame : Token.resolve m.toResolver ⟨t.elements⟩ =
      Token.resolve m.toResolver ⟨ps.map WordPart.element⟩ := by
    rw [← resolve_fuse m.ignoresOrigins, hfuse, resolve_fuse m.ignoresOrigins]
  exact (congrFun hsame run).trans (resolve_parts hrun ps)

/-- The texts of both parts, as that of the parts of both. -/
theorem join_munch (m : VariableMap) (u v : List Char) :
    String.join ((munch u ++ munch v).map (WordPart.text m)) = expansion m u ++ expansion m v := by
  rw [List.map_append, String.join_append]
  rfl

/-- A split leaves parts on one side or the other. -/
theorem munch_munch_ne_nil (hne : u ++ v ≠ []) : munch u ++ munch v ≠ [] := by
  intro hnil
  obtain ⟨hu, hv⟩ := List.append_eq_nil_iff.mp hnil
  refine hne (List.append_eq_nil_iff.mpr ⟨?_, ?_⟩)
  · exact not_imp_not.mp munch_ne_nil hu
  · exact not_imp_not.mp munch_ne_nil hv

/-- A word stands for the texts of its parts. -/
theorem word_stands (filename : String) (hdollar : escape.contains '$' = false)
    (hbackslash : escape.contains '\\' = false) (hword : Wordlike [] w) (hw : w ≠ []) :
    StandsFor escape filename w fun m => expansion m w :=
  standsFor_of_fuse <| Lexer.exists_isOneToken filename (fuse_parts_ne_nil (munch_ne_nil hw)) <|
    (Lexer.gathersWords_wordStep hdollar hbackslash).gathers hword (by simp)

/-- When it is split, it stands for those of each part. -/
theorem split_word_stands (filename : String) (hdollar : escape.contains '$' = false)
    (hbackslash : escape.contains '\\' = false) (hword : Wordlike [] (u ++ v)) (hne : u ++ v ≠ [])
    (hline : lineEnd ∈ [['\n'], ['\r', '\n']]) :
    StandsFor escape filename (u ++ '\\' :: lineEnd ++ v) fun m => expansion m u ++ expansion m v := by
  have hgathers : Lexer.Gathers (Lexer.wordStep escape) Lexer.size_wordStep_lt (u ++ '\\' :: lineEnd ++ v) []
      ((munch u ++ munch v).map WordPart.element) :=
    (Lexer.gathersWords_wordStep hdollar hbackslash).gathers_split hline hword (by simp)
  have hstands := standsFor_of_fuse <|
    Lexer.exists_isOneToken filename (fuse_parts_ne_nil (munch_munch_ne_nil hne)) hgathers
  simpa only [join_munch] using hstands

/-- So it does between double quotes. -/
theorem quoted_split_stands (filename : String) (hquote : escape.contains '"' = false)
    (hword : Wordlike [] (u ++ v)) (hne : u ++ v ≠ []) (hline : lineEnd ∈ [['\n'], ['\r', '\n']]) :
    StandsFor escape filename ('"' :: (u ++ '\\' :: lineEnd ++ v) ++ ['"'])
      fun m => expansion m u ++ expansion m v := by
  have hgathers (opening : Position) : Lexer.Gathers (fun _ : Unit => Lexer.doubleQuoteStep opening)
      Lexer.size_doubleQuoteStep_lt (u ++ '\\' :: lineEnd ++ v) ['"']
      ((munch u ++ munch v).map WordPart.element) :=
    (Lexer.gathersWords_doubleQuoteStep opening).gathers_split hline hword (by simp [isNameChar])
  have hstands := standsFor_of_fuse <|
    Lexer.exists_isOneToken_quoted filename hquote (fuse_parts_ne_nil (munch_munch_ne_nil hne)) hgathers
  simpa only [join_munch] using hstands

/-- A split is not seen, whatever names stand for, unless it cuts a reference. -/
theorem expansion_append_iff (hword : Wordlike [] (u ++ v)) :
    (∀ m, expansion m u ++ expansion m v = expansion m (u ++ v)) ↔ ¬ Cuts u v := by
  constructor
  · intro hsame hcuts
    exact expansion_ne_of_cuts hword hcuts (hsame {})
  · intro hcuts m
    exact (expansion_append m hcuts).symm

end

/-- A word of text and references that is split by a backslash and a line end is one token, between double
quotes too. It stands for the text of what is before the split and then that of what is behind it. For all
values of names that is what the word alone stands for if and only if the split does not cut a reference. -/
theorem split_stands {escape : EscapeSet} (hescape : ∀ c ∈ ['\\', '$', '"'], escape.contains c = false)
    (filename : String) {u v lineEnd : List Char} (hword : IsWord (u ++ v)) (hne : u ++ v ≠ [])
    (hline : lineEnd ∈ [['\n'], ['\r', '\n']]) :
    StandsFor escape filename (u ++ v) (fun m => expansion m (u ++ v)) ∧
      StandsFor escape filename (u ++ '\\' :: lineEnd ++ v) (fun m => expansion m u ++ expansion m v) ∧
      StandsFor escape filename ('"' :: (u ++ '\\' :: lineEnd ++ v) ++ ['"'])
        (fun m => expansion m u ++ expansion m v) ∧
      ((∀ m, expansion m u ++ expansion m v = expansion m (u ++ v)) ↔ ¬ Cuts u v) := by
  have hbackslash := hescape '\\' (by simp)
  have hdollar := hescape '$' (by simp)
  have hquote := hescape '"' (by simp)
  have hlike := Wordlike.of_isWord hword
  exact ⟨word_stands filename hdollar hbackslash hlike hne,
    split_word_stands filename hdollar hbackslash hlike hne hline,
    quoted_split_stands filename hquote hlike hne hline, expansion_append_iff hlike⟩

/-- The word `a$x.b`, split before its dot on lines that end in a carriage return and a newline. -/
theorem split_stands_dot :
    (∀ c ∈ ['\\', '$', '"'], EscapeSet.default.contains c = false) ∧ IsWord (['a', '$', 'x'] ++ ['.', 'b']) ∧
      ['a', '$', 'x'] ++ ['.', 'b'] ≠ [] ∧ ['\r', '\n'] ∈ [['\n'], ['\r', '\n']] ∧
      StandsFor .default "s" "a$x.b".toList (fun m => expansion m "a$x.b".toList) ∧
      StandsFor .default "s" "a$x\\\r\n.b".toList
        (fun m => expansion m "a$x".toList ++ expansion m ".b".toList) ∧
      ∀ m, expansion m "a$x".toList ++ expansion m ".b".toList = expansion m "a$x.b".toList := by
  have hescape : ∀ c ∈ ['\\', '$', '"'], EscapeSet.default.contains c = false := by
    simp [EscapeSet.contains_default]
  have hword : IsWord (['a', '$', 'x'] ++ ['.', 'b']) :=
    ⟨[.char 'a', .reference 'x' [], .char '.', .char 'b'],
      by simp [WordPart.Proper, isShellSafe, isNameStart], rfl⟩
  have hne : ['a', '$', 'x'] ++ ['.', 'b'] ≠ [] := by simp
  have hline : ['\r', '\n'] ∈ [['\n'], ['\r', '\n']] := by simp
  have hcuts : ¬ Cuts ['a', '$', 'x'] ['.', 'b'] := by
    rintro ⟨-, -, -, -, c, ⟨rfl⟩, hc⟩
    exact absurd hc (by decide)
  obtain ⟨hwhole, hsplit, -, hsame⟩ := split_stands hescape "s" hword hne hline
  exact ⟨hescape, hword, hne, hline, hwhole, hsplit, hsame.mpr hcuts⟩

/-- Split before the `b`, the word `$ab` stands for something else. -/
theorem not_split_stands_name :
    IsWord (['$', 'a'] ++ ['b']) ∧ ¬ ∃ text, StandsFor .default "s" "$ab".toList text ∧
      StandsFor .default "s" "$a\\\nb".toList text := by
  have hword : IsWord (['$', 'a'] ++ ['b']) :=
    ⟨[.reference 'a' ['b']], by simp [WordPart.Proper, isNameStart, isNameChar], rfl⟩
  have hlike := Wordlike.of_isWord hword
  have hdollar : EscapeSet.default.contains '$' = false := by decide
  have hbackslash : EscapeSet.default.contains '\\' = false := by decide
  refine ⟨hword, ?_⟩
  rintro ⟨text, hwhole, hsplit⟩
  have htext := hwhole.unique (word_stands "s" hdollar hbackslash hlike (by simp))
  have hline : ['\n'] ∈ [['\n'], ['\r', '\n']] := by simp
  have htext' := hsplit.unique (split_word_stands "s" hdollar hbackslash hlike (by simp) hline)
  have hcuts : Cuts ['$', 'a'] ['b'] := ⟨[], ['a'], rfl, by simp [isNameChar], 'b', rfl, by decide⟩
  exact expansion_ne_of_cuts hlike hcuts (congrFun (htext'.symm.trans htext) {})

end ShellScript
