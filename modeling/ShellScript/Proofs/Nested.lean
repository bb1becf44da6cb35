import Mathlib.Data.List.Induction
import ShellScript.Proofs.Placement
import ShellScript.Proofs.Scripts

/-!
# Where the commands of substitutions are reported

The source of a substitution stands in the text, two characters behind the place that the substitution
remembers. Its commands are parsed with the label of the text, and their places are those of a text that
begins with the source: `commands_placed` says what they are, and that none of them is the place of the same
character in the text. `parseAt` is the parse that starts where the source stands.
-/

namespace ShellScript

/-- The places that a parse reports: those of its commands, or that of its error. -/
def reportedBy : Except ParseError (List Command) → List Location
  | .ok cs => cs.flatMap fun c => reported (.ok c)
  | .error e => reported (.error e)

/-- A collection that fails does so with an error among the items. -/
theorem mem_of_mapM_id_eq_error {is : List (Except ParseError Command)} {e : ParseError}
    (h : is.mapM id = .error e) : .error e ∈ is := by
  induction is with
  | nil => cases h
  | cons i is ih =>
    cases i with
    | error e' =>
      cases h
      exact List.mem_cons_self
    | ok c =>
      rw [List.mapM_cons] at h
      cases hrest : is.mapM id with
      | error e' =>
        rw [hrest] at h
        cases h
        exact List.mem_cons_of_mem _ (ih hrest)
      | ok cs =>
        rw [hrest] at h
        cases h

namespace Parser

/-- What a parse reports, some item of the iteration reports. -/
theorem exists_item_of_reportedBy {σ : Type} [Input σ] {p : Parser σ} {l : Location}
    (h : l ∈ reportedBy p.collect.1) : ∃ i ∈ p.items.1, l ∈ reported i := by
  cases hcollect : p.collect.1 with
  | error e =>
    rw [hcollect] at h
    exact ⟨.error e, mem_of_mapM_id_eq_error hcollect, h⟩
  | ok cs =>
    rw [hcollect] at h
    obtain ⟨c, hc, hl⟩ := List.mem_flatMap.mp h
    refine ⟨.ok c, ?_, hl⟩
    rw [collect_eq_ok.mp hcollect]
    exact List.mem_map_of_mem hc

end Parser

/-- All that the parse of a text reports is placed in it. -/
theorem placed_of_parseString {source filename : String} {l : Location}
    (h : l ∈ reportedBy (parseString source filename)) : Placed filename source.toList l := by
  obtain ⟨i, hi, hl⟩ := Parser.exists_item_of_reportedBy h
  exact (Parser.reports_ofCursor .default filename source).placed i hi l hl

/-! ## Parsing a text where it stands -/

/-- What a parse answers, moved. -/
def Relocation.result (φ : Relocation) : Except ParseError (List Command) → Except ParseError (List Command)
  | .ok cs => .ok (cs.map φ.command)
  | .error e => .error (φ.error e)

/-- The commands of a text that stands behind another one, at this position. -/
def parseAt (p : Position) (source filename : String) : Except ParseError (List Command) :=
  parseAll ({ rest := Utf8.encode source, position := p } : Cursor) filename

/-- Moving all items moves what is collected of them. -/
theorem mapM_id_map_item (φ : Relocation) (is : List (Except ParseError Command)) :
    (is.map φ.item).mapM id = φ.result (is.mapM id) := by
  induction is with
  | nil => rfl
  | cons i is ih =>
    cases i with
    | error e => rfl
    | ok c =>
      rw [List.map_cons, List.mapM_cons, List.mapM_cons, ih]
      cases is.mapM id <;> rfl

/-- A text is parsed where it stands as it is by itself, and what comes of it is moved there. -/
theorem parseAt_eq (p : Position) (source filename : String) :
    parseAt p source filename = (Relocation.after p).result (parseString source filename) := by
  let moved : Parser Cursor := .ofInput { rest := Utf8.encode source, position := p } filename
  have hparsers : (Correspondence.shifted filename p []).Parsers
      (.ofCursor (Utf8.encode source) filename .default) moved :=
    ⟨⟨⟨rfl, (Relocation.after_start p).symm, Position.Counted.start⟩, rfl, rfl, [], rfl, rfl⟩, rfl, rfl⟩
  have hitems := (hparsers.items fun _ => id).2
  change moved.items.1.mapM id = _
  rw [hitems]
  exact mapM_id_map_item _ _

/-! ## Positions behind a text -/

/-- Behind any text, lines and columns count from one. -/
theorem Position.counted_behind (u : List Char) : (behind u).Counted := by
  induction u using List.reverseRecOn with
  | nil => exact .start
  | append_singleton u c ih => exact behind_concat u c ▸ ih.afterRune c _

/-- A text that moves behind another one is a part of both together. -/
theorem Relocation.after_behind (u w : List Char) :
    (after (.behind u)).position (.behind w) = .behind (u ++ w) := by
  induction w using List.reverseRecOn with
  | nil => rw [List.append_nil, Position.behind_nil, after_start]
  | append_singleton w c ih =>
    rw [Position.behind_concat, after_afterRune _ (Position.counted_behind w), ih,
      ← Position.behind_concat, List.append_assoc]

/-- Where the source of a substitution begins in the text that the substitution was read from. -/
def CommandSubstitution.sourcePosition (s : CommandSubstitution) : Position :=
  let p := s.origin.position
  ⟨p.offset + 2, p.line, p.column + 2⟩

/-- The source of a substitution begins two characters behind its dollar sign. -/
theorem sourcePosition_of_origin {s : CommandSubstitution} {u : List Char}
    (h : s.origin.position = .behind u) : s.sourcePosition = .behind (u ++ ['$', '(']) := by
  have hsplit : u ++ ['$', '('] = u ++ ['$'] ++ ['('] := by simp
  rw [hsplit, Position.behind_concat, Position.behind_concat, CommandSubstitution.sourcePosition, h]
  rfl

/-! ## Commands of substitutions -/

/-- A substitution that was read stands in the text, with its source behind `$(`. Its commands are those of
the source where it stands, before they are moved there. So what they report has the label of the text and
is the place of a character in the source, counted from the start of the source. The place of that character
in the text is the one that is reported, moved to where the source begins; it is never the one that is
reported. -/
theorem commands_placed (escape : EscapeSet) (filename text : String) {c : Command}
    {s : CommandSubstitution} (hc : .ok c ∈ (Parser.ofBytes (Utf8.encode text) filename escape).items.1)
    (hs : .substitution s ∈ c.tokens.flatMap Token.elements) :
    ∃ u v, text.toList = u ++ ['$', '('] ++ s.source.toList ++ ')' :: v ∧
      s.origin = ⟨filename, .behind u⟩ ∧ s.sourcePosition = .behind (u ++ ['$', '(']) ∧
      parseAt s.sourcePosition s.source filename = (Relocation.after s.sourcePosition).result s.commands ∧
      ∀ l ∈ reportedBy s.commands, ∃ w x, s.source.toList = w ++ x ∧ l = ⟨filename, .behind w⟩ ∧
        (Relocation.after s.sourcePosition).location l = ⟨filename, .behind (u ++ ['$', '('] ++ w)⟩ ∧
        l ≠ ⟨filename, .behind (u ++ ['$', '('] ++ w)⟩ := by
  rw [Parser.items_ofBytes] at hc
  obtain ⟨u, v, htext, horigin⟩ :=
    (Parser.reports_ofCursor escape filename text).substitutions c hc s hs
  have hposition : s.sourcePosition = .behind (u ++ ['$', '(']) :=
    sourcePosition_of_origin (congrArg Location.position horigin)
  have hlabel : s.origin.filename = filename := congrArg Location.filename horigin
  -- the source is parsed from its own start, so each place in it is one too early by what is in front
  refine ⟨u, v, by simp [htext], horigin, hposition, hlabel ▸ parseAt_eq _ _ _, fun l hl => ?_⟩
  obtain ⟨hfilename, w, x, hsource, hw⟩ := placed_of_parseString hl
  have hplace : l = ⟨filename, .behind w⟩ := by
    rw [← hlabel, ← hfilename, ← hw]
  refine ⟨w, x, hsource, hplace, ?_, fun hsame => ?_⟩
  · rw [hplace, hposition, Relocation.location, Relocation.after_behind]
  · -- there are two bytes at least before the source
    have hoffset := congrArg (·.position.offset) (hplace.symm.trans hsame)
    simp only [Position.offset_behind, Utf8.encodeChars_append, List.length_append] at hoffset
    have htwo : (Utf8.encodeChars ['$', '(']).length = 2 := rfl
    omega

/-- In `é;$(a` and `b)` on the next line, the command `b` stands at the offset 7 and is reported at 2. -/
theorem commands_placed_second_line :
    let s : CommandSubstitution := ⟨"a\nb", ⟨"s", ⟨3, 1, 3⟩⟩⟩
    let c : Command := ⟨[⟨[.substitution s]⟩], none, ⟨"s", ⟨3, 1, 3⟩⟩⟩
    let l : Location := ⟨"s", ⟨2, 2, 1⟩⟩
    .ok c ∈ (Parser.ofBytes (Utf8.encode "é;$(a\nb)") "s" .default).items.1 ∧
      .substitution s ∈ c.tokens.flatMap Token.elements ∧ l ∈ reportedBy s.commands ∧
      parseAt ⟨5, 1, 5⟩ "a\nb" "s" = (Relocation.after ⟨5, 1, 5⟩).result s.commands ∧
      ∃ u w x, s.source.toList = w ++ x ∧ l = ⟨"s", .behind w⟩ ∧
        (Relocation.after s.sourcePosition).location l = ⟨"s", .behind (u ++ ['$', '('] ++ w)⟩ ∧
        (Relocation.after s.sourcePosition).location l = ⟨"s", ⟨7, 2, 1⟩⟩ := by
  intro s c l
  have hc : .ok c ∈ (Parser.ofBytes (Utf8.encode "é;$(a\nb)") "s" .default).items.1 := by
    decide +kernel
  have hs : .substitution s ∈ c.tokens.flatMap Token.elements := by decide
  have hl : l ∈ reportedBy s.commands := by decide +kernel
  obtain ⟨u, v, -, -, -, hresult, hplaced⟩ := commands_placed .default "s" "é;$(a\nb)" hc hs
  obtain ⟨w, x, hsource, hw, hmoved, -⟩ := hplaced l hl
  exact ⟨hc, hs, hl, hresult, u, w, x, hsource, hw, hmoved, by decide⟩

/-- In `$(a)` the command `a` is reported where the dollar sign is. -/
theorem commands_not_moved : ¬∀ (filename text : String) (c : Command) (s : CommandSubstitution),
    .ok c ∈ (Parser.ofBytes (Utf8.encode text) filename .default).items.1 →
    .substitution s ∈ c.tokens.flatMap Token.elements →
    ∀ l ∈ reportedBy s.commands, l.filename = filename → ∃ w x, s.source.toList = w ++ x ∧
      l.position = (Relocation.after s.sourcePosition).position (.behind w) := by
  intro h
  let s : CommandSubstitution := ⟨"a", ⟨"s", .start⟩⟩
  let c : Command := ⟨[⟨[.substitution s]⟩], none, ⟨"s", .start⟩⟩
  have hc : .ok c ∈ (Parser.ofBytes (Utf8.encode "$(a)") "s" .default).items.1 := by decide +kernel
  have hl : ⟨"s", .start⟩ ∈ reportedBy s.commands := by decide +kernel
  obtain ⟨w, x, -, hposition⟩ := h "s" "$(a)" c s hc (by decide) _ hl rfl
  have hoffset := congrArg Position.offset hposition
  change 0 = (Position.behind w).offset + 2 at hoffset
  omega

end ShellScript
