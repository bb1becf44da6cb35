import Mathlib.Data.List.Induction
import ShellScript.Proofs.Inputs
import ShellScript.Proofs.Stretches

/-!
# The extent of a body

Which bracket closes a body, said without the reader of bodies. A text is made of pieces: characters that
stand for themselves, characters behind a backslash, and quotes with what they hold. Only pieces of the first
kind open and close brackets (`Brackets.depth`), and a body ends before the closing bracket that brings the
depth to zero for the first time (`Brackets.Extent`). The reader finds this bracket if there is one, and
otherwise takes everything.
-/

namespace ShellScript

/-- A character that stands for itself, or one behind a backslash. -/
inductive Glyph
  | plain (c : Char)
  | escaped (c : Char)
  deriving DecidableEq, Repr

namespace Glyph

/-- How a glyph is written. -/
def text : Glyph → List Char
  | plain c => [c]
  | escaped c => ['\\', c]

/-- Whether a glyph reads as itself where these characters mean something else. -/
def Fits (special : List Char) : Glyph → Prop
  | plain c => c ∉ special
  | escaped _ => True

end Glyph

/-- A part of a body. -/
inductive Piece
  | glyph (g : Glyph)
  /-- Single quotes, and the text between them. -/
  | single (inner : List Char)
  /-- Double quotes, and what is between them. -/
  | double (inner : List Glyph)
  deriving DecidableEq, Repr

namespace Piece

/-- How a piece is written. -/
def text : Piece → List Char
  | glyph g => g.text
  | single inner => '\'' :: inner ++ ['\'']
  | double inner => '"' :: inner.flatMap Glyph.text ++ ['"']

/-- Whether a piece reads as what it is. Nothing protects a quote between single quotes. -/
def Proper : Piece → Prop
  | glyph g => g.Fits ['\\', '\'', '"']
  | single inner => '\'' ∉ inner
  | double inner => ∀ g ∈ inner, g.Fits ['\\', '"']

/-- A character that stands for itself, as a piece. -/
abbrev plain (c : Char) : Piece := glyph (.plain c)

end Piece

namespace Brackets

/-- How many brackets are open behind these pieces of a body, the outer one counted. -/
def depth (pair : Brackets) (ps : List Piece) : Int :=
  1 + ps.count (.plain pair.opening) - ps.count (.plain pair.closing)

/-- Pieces of a body, with the outer bracket still open behind each of them. -/
structure Inside (pair : Brackets) (ps : List Piece) : Prop where
  proper : ∀ p ∈ ps, p.Proper
  positive : ∀ qs, qs <+: ps → 0 < pair.depth qs

/-- Whether a closing bracket behind this text brings the depth to zero for the first time. -/
def Extent (pair : Brackets) (body : List Char) : Prop :=
  ∃ ps, body = ps.flatMap Piece.text ∧ pair.Inside ps ∧
    pair.depth (ps ++ [.plain pair.closing]) = 0

/-- Brackets that differ, and that are no quotes and no backslash. -/
structure Apart (pair : Brackets) : Prop where
  opening : pair.opening ∉ ['\\', '\'', '"']
  closing : pair.closing ∉ ['\\', '\'', '"']
  differ : pair.opening ≠ pair.closing

/-- Parentheses can be told from everything else that counts in a body. -/
theorem apart_parentheses : parentheses.Apart := ⟨by decide, by decide, by decide⟩

/-- So can braces. -/
theorem apart_braces : braces.Apart := ⟨by decide, by decide, by decide⟩

variable {pair : Brackets} {ps : List Piece} {p : Piece}

/-- Before the first piece the outer bracket is open. -/
@[simp] theorem depth_nil : pair.depth [] = 1 := by simp [depth]

/-- One more piece changes the depth only if it is a bracket. -/
theorem depth_concat (hpair : pair.Apart) (ps : List Piece) (p : Piece) :
    pair.depth (ps ++ [p]) = pair.depth ps +
      if p = .plain pair.opening then 1 else if p = .plain pair.closing then -1 else 0 := by
  have hdiffer : (.plain pair.opening : Piece) ≠ .plain pair.closing := by
    intro h
    exact hpair.differ (by simpa using h)
  unfold depth
  rw [List.count_append, List.count_append, List.count_singleton, List.count_singleton]
  by_cases hopening : p = .plain pair.opening
  · subst hopening
    simp [hdiffer]
    omega
  · by_cases hclosing : p = .plain pair.closing
    · subst hclosing
      simp [hdiffer.symm]
      omega
    · simp [hopening, hclosing]

/-- A body may end at once. -/
theorem Inside.nil : pair.Inside [] where
  proper := by simp
  positive qs hqs := by
    rw [List.prefix_nil.mp hqs, depth_nil]
    exact Int.one_pos

/-- One more piece stays inside if it is proper and leaves the outer bracket open. -/
theorem inside_concat : pair.Inside (ps ++ [p]) ↔
    pair.Inside ps ∧ p.Proper ∧ 0 < pair.depth (ps ++ [p]) := by
  constructor
  · intro h
    refine ⟨⟨fun q hq => h.proper q (by simp [hq]), fun qs hqs => h.positive qs ?_⟩, ?_, ?_⟩
    · exact hqs.trans (List.prefix_append ps [p])
    · exact h.proper p (by simp)
    · exact h.positive _ (List.prefix_refl _)
  · rintro ⟨h, hp, hpositive⟩
    refine ⟨?_, ?_⟩
    · intro q hq
      rcases List.mem_append.mp hq with hq | hq
      · exact h.proper q hq
      · rwa [List.mem_singleton.mp hq]
    · intro qs hqs
      rcases List.prefix_concat_iff.mp hqs with rfl | hqs
      · exact hpositive
      · exact h.positive qs hqs

end Brackets

/-! ## From pieces to the reader -/

section

variable {pair : Brackets} {ps : List Piece}

/-- A glyph between double quotes changes nothing: its backslash takes the character behind it. -/
theorem Glyph.feed {g : Glyph} (h : g.Fits ['\\', '"']) (depth : Nat) :
    g.text.foldlM (Nesting.feed pair) { depth, quoting := .double } =
      some { depth, quoting := .double } := by
  cases g with
  | plain c =>
    obtain ⟨hbackslash, hquote⟩ : c ≠ '\\' ∧ c ≠ '"' := by simpa [Fits] using h
    simp [text, Nesting.feed, hbackslash, hquote]
  | escaped c => simp [text, Nesting.feed]

/-- Single quotes hold everything but a single quote. -/
theorem Nesting.feed_singleQuoted {inner : List Char} (h : '\'' ∉ inner) (depth : Nat) :
    inner.foldlM (feed pair) { depth, quoting := .single } = some { depth, quoting := .single } := by
  induction inner with
  | nil => rfl
  | cons c inner ih =>
    obtain ⟨hc, hinner⟩ : '\'' ≠ c ∧ '\'' ∉ inner := by simpa using h
    rw [List.foldlM_cons]
    simpa [feed, hc.symm] using ih hinner

/-- All that stands between double quotes leaves the depth as it is. -/
theorem Nesting.feed_doubleQuoted {inner : List Glyph} (h : ∀ g ∈ inner, g.Fits ['\\', '"'])
    (depth : Nat) : (inner.flatMap Glyph.text).foldlM (feed pair) { depth, quoting := .double } =
      some { depth, quoting := .double } := by
  induction inner with
  | nil => rfl
  | cons g inner ih =>
    obtain ⟨hg, hinner⟩ := List.forall_mem_cons.mp h
    rw [List.flatMap_cons, List.foldlM_append, Glyph.feed hg]
    exact ih hinner

/-- The reader stands behind a piece as deep as before it, unless the piece is a bracket. -/
theorem Piece.feed {p : Piece} (h : p.Proper) (hopening : p ≠ .plain pair.opening)
    (hclosing : p ≠ .plain pair.closing) (depth : Nat) :
    p.text.foldlM (Nesting.feed pair) { depth } = some { depth } := by
  cases p with
  | glyph g =>
    cases g with
    | plain c =>
      obtain ⟨hbackslash, hsingle, hdouble⟩ : c ≠ '\\' ∧ c ≠ '\'' ∧ c ≠ '"' := by
        simpa [Proper, Glyph.Fits] using h
      simp only [ne_eq, glyph.injEq, Glyph.plain.injEq] at hopening hclosing
      simp [text, Glyph.text, Nesting.feed, hbackslash, hsingle, hdouble, hopening, hclosing]
    | escaped c => simp [text, Glyph.text, Nesting.feed]
  | single inner =>
    have hinner : inner.foldlM (Nesting.feed pair) { depth, quoting := .single } =
        some { depth, quoting := .single } := Nesting.feed_singleQuoted h depth
    simp [text, List.foldlM_append, Nesting.feed] at hinner ⊢
    simp [hinner]
  | double inner =>
    have hinner : (inner.flatMap Glyph.text).foldlM (Nesting.feed pair) { depth, quoting := .double } =
        some { depth, quoting := .double } := Nesting.feed_doubleQuoted h depth
    simp [text, List.foldlM_append, Nesting.feed] at hinner ⊢
    simp [hinner]

/-- Behind the pieces of a body the reader stands as deep as they are, outside quotes. -/
theorem Brackets.Inside.feed (hpair : pair.Apart) (h : pair.Inside ps) :
    ∃ d : Nat, pair.depth ps = d + 1 ∧
      (ps.flatMap Piece.text).foldlM (Nesting.feed pair) {} = some { depth := d } := by
  induction ps using List.reverseRecOn with
  | nil => exact ⟨0, by simp, rfl⟩
  | append_singleton ps p ih =>
    obtain ⟨hps, hp, hpositive⟩ := inside_concat.mp h
    obtain ⟨d, hd, hfeed⟩ := ih hps
    rw [depth_concat hpair] at hpositive ⊢
    rw [List.flatMap_append, List.foldlM_append, hfeed, List.flatMap_singleton]
    by_cases hopening : p = .plain pair.opening
    · subst hopening
      refine ⟨d + 1, by simp [hd], ?_⟩
      have hc := hpair.opening
      simp only [List.mem_cons, List.not_mem_nil, or_false, not_or] at hc
      simp [Piece.text, Glyph.text, Nesting.feed, hc]
    · by_cases hclosing : p = .plain pair.closing
      · subst hclosing
        -- the depth stays positive, so this bracket closes an inner one
        rw [if_neg hopening, if_pos rfl] at hpositive ⊢
        obtain ⟨k, rfl⟩ : ∃ k, d = k + 1 := ⟨d - 1, by omega⟩
        refine ⟨k, by omega, ?_⟩
        have hc := hpair.closing
        simp only [List.mem_cons, List.not_mem_nil, or_false, not_or] at hc
        simp [Piece.text, Glyph.text, Nesting.feed, hc, hpair.differ.symm]
      · exact ⟨d, by simp [hopening, hclosing, hd], Piece.feed hp hopening hclosing d⟩

end

/-! ## From the reader to pieces -/

/-- What stands behind the last complete piece, given the quotes that are open and whether a backslash came
last. -/
inductive Unfinished : Quoting → Bool → List Char → Prop
  | nothing : Unfinished .bare false []
  | backslash : Unfinished .bare true ['\\']
  | single {inner : List Char} (h : '\'' ∉ inner) : Unfinished .single false ('\'' :: inner)
  | double {inner : List Glyph} (h : ∀ g ∈ inner, g.Fits ['\\', '"']) :
    Unfinished .double false ('"' :: inner.flatMap Glyph.text)
  | doubleBackslash {inner : List Glyph} (h : ∀ g ∈ inner, g.Fits ['\\', '"']) :
    Unfinished .double true ('"' :: inner.flatMap Glyph.text ++ ['\\'])

/-- What is known of the text that led a reader to where it stands. -/
def Nesting.Behind (pair : Brackets) (n : Nesting) (text : List Char) : Prop :=
  ∃ ps tail, text = ps.flatMap Piece.text ++ tail ∧ pair.Inside ps ∧ pair.depth ps = n.depth + 1 ∧
    Unfinished n.quoting n.escaped tail

namespace Nesting

variable {pair : Brackets} {ps : List Piece} {p : Piece} {text tail : List Char}

/-- Behind a complete piece nothing is unfinished. -/
theorem behind_concat {depth : Nat} (hps : pair.Inside ps) (hp : p.Proper)
    (hdepth : pair.depth (ps ++ [p]) = depth + 1) :
    Behind pair { depth } (ps.flatMap Piece.text ++ p.text) := by
  refine ⟨ps ++ [p], [], by simp, ?_, hdepth, .nothing⟩
  exact Brackets.inside_concat.mpr ⟨hps, hp, by omega⟩

/-- A complete piece that is no bracket leaves the depth as it is. -/
theorem behind_piece (hpair : pair.Apart) {depth : Nat} (hps : pair.Inside ps)
    (hdepth : pair.depth ps = depth + 1) (hp : p.Proper) (hopening : p ≠ .plain pair.opening)
    (hclosing : p ≠ .plain pair.closing) :
    Behind pair { depth } (ps.flatMap Piece.text ++ p.text) := by
  apply behind_concat hps hp
  rw [Brackets.depth_concat hpair, if_neg hopening, if_neg hclosing, hdepth, Int.add_zero]

/-- Outside quotes a character is a piece, or begins one. -/
theorem behind_plain (hpair : pair.Apart) {depth : Nat} {n' : Nesting} {c : Char}
    (hps : pair.Inside ps) (hdepth : pair.depth ps = depth + 1)
    (hfeed : feed pair { depth } c = some n') : n'.Behind pair (ps.flatMap Piece.text ++ [c]) := by
  unfold feed at hfeed
  simp only [Bool.false_eq_true, if_false] at hfeed
  split at hfeed
  · subst c
    cases hfeed
    exact ⟨ps, _, rfl, hps, hdepth, .backslash⟩
  rename_i hbackslash
  split at hfeed
  · subst c
    cases hfeed
    exact ⟨ps, _, rfl, hps, hdepth, .single (by simp)⟩
  rename_i hsingle
  split at hfeed
  · subst c
    cases hfeed
    exact ⟨ps, _, rfl, hps, hdepth, @Unfinished.double [] (by simp)⟩
  rename_i hdouble
  -- what is left is a character that stands for itself, be it a bracket
  have hproper : (Piece.plain c).Proper := by simp [Piece.Proper, Glyph.Fits, hbackslash, hsingle, hdouble]
  split at hfeed
  · subst c
    cases hfeed
    apply behind_concat hps hproper
    rw [Brackets.depth_concat hpair, if_pos rfl, hdepth]
    rfl
  rename_i hopening
  split at hfeed
  · subst c
    cases depth with
    | zero => cases hfeed
    | succ depth =>
      cases hfeed
      apply behind_concat hps hproper
      rw [Brackets.depth_concat hpair, if_neg (by simpa using hopening), if_pos rfl, hdepth]
      omega
  · rename_i hclosing
    cases hfeed
    exact behind_piece hpair hps hdepth hproper (by simpa using hopening) (by simpa using hclosing)

/-- Every character that does not close the body leads on. -/
theorem Behind.feed (hpair : pair.Apart) {n n' : Nesting} {c : Char} (h : n.Behind pair text)
    (hfeed : n.feed pair c = some n') : n'.Behind pair (text ++ [c]) := by
  obtain ⟨ps, tail, rfl, hps, hdepth, htail⟩ := h
  obtain ⟨depth, quoting, escaped⟩ := n
  rw [List.append_assoc]
  -- on what stands behind the last complete piece, which the character completes or goes on with
  cases htail with
  | nothing => exact behind_plain hpair hps hdepth hfeed
  | backslash =>
    cases hfeed
    exact behind_piece (p := .glyph (.escaped c)) hpair hps hdepth trivial (by simp) (by simp)
  | @single inner hinner =>
    by_cases hc : c = '\''
    · subst hc
      cases hfeed
      exact behind_piece (p := .single inner) hpair hps hdepth hinner (by simp) (by simp)
    · obtain rfl : { depth, quoting := .single } = n' := by simpa [Nesting.feed, hc] using hfeed
      exact ⟨ps, _, rfl, hps, hdepth, .single (by simp [hinner, Ne.symm hc])⟩
  | @double inner hinner =>
    by_cases hbackslash : c = '\\'
    · subst hbackslash
      cases hfeed
      exact ⟨ps, _, rfl, hps, hdepth, .doubleBackslash hinner⟩
    · by_cases hquote : c = '"'
      · subst hquote
        cases hfeed
        exact behind_piece (p := .double inner) hpair hps hdepth hinner (by simp) (by simp)
      · obtain rfl : { depth, quoting := .double } = n' := by
          simpa [Nesting.feed, hbackslash, hquote] using hfeed
        refine ⟨ps, _, rfl, hps, hdepth, ?_⟩
        have hc : (Glyph.plain c).Fits ['\\', '"'] := by simp [Glyph.Fits, hbackslash, hquote]
        have hall := List.forall_mem_append.mpr ⟨hinner, List.forall_mem_singleton.mpr hc⟩
        simpa [Glyph.text] using Unfinished.double hall
  | @doubleBackslash inner hinner =>
    cases hfeed
    have hc : (Glyph.escaped c).Fits ['\\', '"'] := trivial
    have hall := List.forall_mem_append.mpr ⟨hinner, List.forall_mem_singleton.mpr hc⟩
    refine ⟨ps, _, rfl, hps, hdepth, ?_⟩
    simpa [Glyph.text] using Unfinished.double hall

/-- What a reader has behind it as long as the body is not closed. -/
theorem behind_of_feed (hpair : pair.Apart) {n : Nesting} (h : text.foldlM (feed pair) {} = some n) :
    n.Behind pair text := by
  induction text using List.reverseRecOn generalizing n with
  | nil =>
    cases h
    exact ⟨[], [], rfl, .nil, by simp, .nothing⟩
  | append_singleton text c ih =>
    rw [List.foldlM_append] at h
    obtain ⟨n₁, hn₁, hc⟩ := Option.bind_eq_some_iff.mp h
    apply (ih hn₁).feed hpair
    simpa using hc

end Nesting

/-- The text up to the bracket that brings the depth to zero is what the brackets enclose. -/
theorem Brackets.extent_iff_encloses {pair : Brackets} (hpair : pair.Apart) {body : List Char} :
    pair.Extent body ↔ pair.Encloses body := by
  have hclosing (ps : List Piece) :
      pair.depth (ps ++ [.plain pair.closing]) = pair.depth ps - 1 := by
    rw [depth_concat hpair, if_neg (by simpa using hpair.differ.symm), if_pos rfl]
    rfl
  constructor
  · rintro ⟨ps, rfl, hps, hzero⟩
    rw [hclosing] at hzero
    obtain ⟨d, hd, hfeed⟩ := hps.feed hpair
    obtain rfl : d = 0 := by omega
    refine ⟨{}, hfeed, ?_⟩
    have hc := hpair.closing
    simp only [List.mem_cons, List.not_mem_nil, or_false, not_or] at hc
    simp [Nesting.feed, hc, hpair.differ.symm]
  · rintro ⟨n, hfeed, hclose⟩
    obtain rfl := Nesting.eq_start_of_feed hclose
    obtain ⟨ps, tail, rfl, hps, hdepth, htail⟩ := Nesting.behind_of_feed hpair hfeed
    cases htail
    refine ⟨ps, List.append_nil _, hps, ?_⟩
    rw [hclosing, hdepth]
    rfl

/-! ## What the reader does -/

/-- A text begins with a body and its bracket if and only if it splits there. -/
theorem Brackets.split_eq_some_iff {pair : Brackets} {text body rest : List Char} :
    pair.split {} text = some (body, rest) ↔
      text = body ++ pair.closing :: rest ∧ pair.Encloses body := by
  constructor
  · intro h
    -- the same from any nesting, as the split goes into the text
    suffices hloop : ∀ n, pair.split n text = some (body, rest) →
        text = body ++ pair.closing :: rest ∧
          ∃ n', body.foldlM (Nesting.feed pair) n = some n' ∧ n'.feed pair pair.closing = none from
      hloop {} h
    clear h
    induction text generalizing body with
    | nil =>
      intro n h
      cases h
    | cons c text ih =>
      intro n h
      unfold split at h
      split at h
      · rename_i hc
        cases h
        obtain rfl := Lexer.eq_closing_of_feed hc
        exact ⟨rfl, n, rfl, hc⟩
      · rename_i n₁ hc
        obtain ⟨⟨body', rest'⟩, hsplit, hparts⟩ := Option.map_eq_some_iff.mp h
        cases hparts
        obtain ⟨rfl, n', hfeed, hclose⟩ := ih n₁ hsplit
        exact ⟨rfl, n', by rw [List.foldlM_cons, hc]; exact hfeed, hclose⟩
  · rintro ⟨rfl, h⟩
    exact split_of_encloses h rest

namespace Lexer

/-- Where no bracket closes the body, everything is taken before that is known. -/
theorem readBody_of_split_none {pair : Brackets} (construct : String) {l : Lexer Cursor}
    {text : List Char} (hl : l.input.rest = Utf8.encodeChars text) (h : pair.split {} text = none) :
    ∃ l', l.readBody pair construct = (.error (.unexpectedEof construct l'.location), l') ∧
      l'.input.rest = [] := by
  -- the same from any state of the loop
  suffices hloop : ∀ n body, pair.split n text = none →
      ∃ l', iterate (bodyStep pair construct) size_bodyStep_lt (n, body) l =
        (.error (.unexpectedEof construct l'.location), l') ∧ l'.input.rest = [] from hloop {} "" h
  clear h
  induction text generalizing l with
  | nil =>
    intro n body _
    obtain ⟨l', hn, hl'⟩ := nextRune_end hl
    exact ⟨l', by simp [iterate_eq, bodyStep, hn], hl'⟩
  | cons c text ih =>
    intro n body h
    rw [Utf8.encodeChars_cons] at hl
    obtain ⟨l₁, hn, hl₁, -⟩ := nextRune_encoded hl
    unfold Brackets.split at h
    split at h
    · cases h
    · rename_i n₁ hc
      obtain ⟨l', hr, hl'⟩ := ih hl₁ n₁ (body.push c) (Option.map_eq_none_iff.mp h)
      refine ⟨l', ?_, hl'⟩
      rw [iterate_eq]
      simp only [bodyStep, hn, hc, hr]

end Lexer

/-- Whether a text begins with this body and the bracket that ends it, and goes on like that. -/
def Brackets.Delimits (pair : Brackets) (text : List Char) (body : String) (rest : List Char) : Prop :=
  text = body.toList ++ pair.closing :: rest ∧ pair.Extent body.toList

namespace Lexer

variable {pair : Brackets} {l : Lexer Scanner} {text : List Char}

/-- On a stream without failures a body is read up to its bracket, whatever bytes follow it. -/
theorem readBody_of_extent (hpair : pair.Apart) (construct : String)
    (steady : l.input.reader.Steady) {body : String} (hbody : pair.Extent body.toList)
    {bytes : List UInt8}
    (hl : l.input.unread = Utf8.encodeChars (body.toList ++ [pair.closing]) ++ bytes) :
    ∃ l', l.readBody pair construct = (.ok body, l') ∧ l'.input.unread = bytes := by
  have hencloses := (Brackets.extent_iff_encloses hpair).mp hbody
  have hrest : l.overCursor.input.rest =
      Utf8.encodeChars body.toList ++ (String.utf8EncodeChar pair.closing ++ bytes) := by
    show l.input.unread = _
    rw [hl]
    simp [Utf8.encodeChars]
  obtain ⟨m', hm, hm'⟩ := readBody_chars construct hencloses hrest
  rw [String.ofList_toList] at hm
  obtain ⟨l', hr, sim⟩ := (Correspondence.exact_ofReader l.filename).eq_of_agree
    ((sim_overCursor steady).readBody pair construct) (fun _ _ h => h.symm) hm
  exact ⟨l', hr, sim.input.unread.trans hm'⟩

/-- Without a bracket that ends the body, the text is taken to its end and found incomplete. -/
theorem readBody_of_no_extent (hpair : pair.Apart) (construct : String)
    (steady : l.input.reader.Steady) (hl : l.input.unread = Utf8.encodeChars text)
    (h : ¬∃ body rest, pair.Delimits text body rest) :
    ∃ l', l.readBody pair construct = (.error (.unexpectedEof construct l'.location), l') ∧
      l'.input.unread = [] := by
  have hsplit : pair.split {} text = none := by
    by_contra hsome
    obtain ⟨⟨body, rest⟩, hsplit⟩ := Option.ne_none_iff_exists'.mp hsome
    obtain ⟨htext, hencloses⟩ := Brackets.split_eq_some_iff.mp hsplit
    refine h ⟨String.ofList body, rest, ?_, ?_⟩
    · simpa using htext
    · simpa using (Brackets.extent_iff_encloses hpair).mpr hencloses
  obtain ⟨m', hm, hm'⟩ := readBody_of_split_none construct (l := l.overCursor) hl hsplit
  obtain ⟨l', hr, sim⟩ := (Correspondence.exact_ofReader l.filename).eq_of_agree
    ((sim_overCursor steady).readBody pair construct) (fun _ _ h => h.symm) hm
  have hlocation : m'.location = l'.location := by
    unfold location place
    rw [sim.filename, show l'.position = m'.position from sim.input.position]
  exact ⟨l', hlocation ▸ hr, sim.input.unread.trans hm'⟩

/-- A body has an exact extent. It is answered if and only if the text begins with it and with the bracket
that closes it; what follows that bracket is left, and has no influence. If no bracket closes a body, the
text is taken to its end, and that is the error. -/
theorem readBody_extent (hpair : pair = .parentheses ∨ pair = .braces) (construct : String)
    (steady : l.input.reader.Steady) (hl : l.input.unread = Utf8.encodeChars text) :
    (∀ body, (l.readBody pair construct).1 = .ok body ↔ ∃ rest, pair.Delimits text body rest) ∧
      (∀ body rest, pair.Delimits text body rest →
        (l.readBody pair construct).2.input.unread = Utf8.encodeChars rest ∧
          ∀ (m : Lexer Scanner) (bytes : List UInt8), m.input.reader.Steady →
            m.input.unread = Utf8.encodeChars (body.toList ++ [pair.closing]) ++ bytes →
            ∃ m', m.readBody pair construct = (.ok body, m') ∧ m'.input.unread = bytes) ∧
      ((∃ l', l.readBody pair construct = (.error (.unexpectedEof construct l'.location), l') ∧
        l'.input.unread = []) ↔ ¬∃ body rest, pair.Delimits text body rest) := by
  have hapart : pair.Apart := by
    rcases hpair with rfl | rfl
    · exact Brackets.apart_parentheses
    · exact Brackets.apart_braces
  have hread {body : String} {rest : List Char} (h : pair.Delimits text body rest) :
      ∃ l', l.readBody pair construct = (.ok body, l') ∧ l'.input.unread = Utf8.encodeChars rest := by
    apply readBody_of_extent hapart construct steady h.2
    rw [hl, h.1, ← Utf8.encodeChars_append]
    simp
  refine ⟨fun body => ⟨fun h => ?_, ?_⟩, fun body rest h => ⟨?_, ?_⟩, ?_, ?_⟩
  · -- a body that was read cannot be one of a text without a closing bracket
    by_cases hsome : ∃ body rest, pair.Delimits text body rest
    · obtain ⟨body', rest, hdelimits⟩ := hsome
      obtain ⟨l', hr, -⟩ := hread hdelimits
      rw [hr] at h
      cases h
      exact ⟨rest, hdelimits⟩
    · obtain ⟨l', hr, -⟩ := readBody_of_no_extent hapart construct steady hl hsome
      rw [hr] at h
      cases h
  · rintro ⟨rest, h⟩
    obtain ⟨l', hr, -⟩ := hread h
    rw [hr]
  · obtain ⟨l', hr, hl'⟩ := hread h
    rw [hr]
    exact hl'
  · intro m bytes hm hunread
    exact readBody_of_extent hapart construct hm h.2 hunread
  · rintro ⟨l', herror, -⟩ ⟨body, rest, h⟩
    obtain ⟨l₁, hr, -⟩ := hread h
    rw [hr] at herror
    cases herror
  · exact readBody_of_no_extent hapart construct steady hl

/-- The parenthesis in single quotes closes nothing, and the one behind them closes an inner pair. -/
theorem readBody_extent_singleQuotes :
    let l := Lexer.ofInput (Scanner.ofReader { unread := Utf8.encode "a(')')b) c" }) "s"
    Brackets.parentheses.Delimits "a(')')b) c".toList "a(')')b" " c".toList ∧
      (l.readBody .parentheses "substitution").1 = .ok "a(')')b" ∧
      (l.readBody .parentheses "substitution").2.input.unread = Utf8.encode " c" := by
  intro l
  have hdelimits : Brackets.parentheses.Delimits "a(')')b) c".toList "a(')')b" " c".toList :=
    ⟨by decide, (Brackets.extent_iff_encloses Brackets.apart_parentheses).mpr (by decide +kernel)⟩
  have steady : l.input.reader.Steady := ⟨rfl, nofun⟩
  obtain ⟨hanswer, hrest, -⟩ := readBody_extent (.inl rfl) "substitution" steady rfl
  exact ⟨hdelimits, (hanswer _).mpr ⟨_, hdelimits⟩, (hrest _ _ hdelimits).1⟩

end Lexer

end ShellScript
