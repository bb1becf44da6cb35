import ShellScript.Proofs.Quoting

/-!
# Scripts survive being written back

The source of a script that was read is read as the same script, but for origins and for how literal text
is cut into literals. `fuse` makes both disappear.
-/

namespace ShellScript

/-! ## Fused words -/

/-- Puts an element before others. A literal joins the literal that it meets, and is left out if it is
empty and meets none. -/
def Element.prepend : Element → List Element → List Element
  | .literal l, .literal m :: es => .literal { m with text := l.text ++ m.text } :: es
  | .literal l, es => if l.text = "" then es else .literal ⟨l.text, default⟩ :: es
  | e, es => e.unplaced :: es

/-- The elements without origins, each run of adjacent literals as one, and none for an empty run. -/
def fuse (es : List Element) : List Element :=
  es.foldr Element.prepend []

/-- Elements are joined from the last one on. -/
theorem fuse_cons (e : Element) (es : List Element) : fuse (e :: es) = e.prepend (fuse es) := rfl

/-- Elements begin with a literal or do not. -/
theorem literal_head_or (es : List Element) :
    (∃ m rest, es = .literal m :: rest) ∨ ∀ m rest, es ≠ .literal m :: rest := by
  cases es with
  | nil => exact .inr (by simp)
  | cons e rest =>
    cases e with
    | literal m => exact .inl ⟨m, rest, rfl⟩
    | _ => exact .inr (by simp)

/-- Away from other literals, a literal stands for itself. -/
theorem prepend_literal {es : List Element} (hes : ∀ m rest, es ≠ .literal m :: rest) (l : Literal) :
    (Element.literal l).prepend es =
      if l.text = "" then es else .literal ⟨l.text, default⟩ :: es := by
  cases es with
  | nil => rfl
  | cons e rest =>
    cases e with
    | literal m => exact (hes m rest rfl).elim
    | _ => rfl

/-- An empty literal adds nothing. -/
theorem prepend_of_empty {l : Literal} (h : l.text = "") (es : List Element) :
    (Element.literal l).prepend es = es := by
  rcases literal_head_or es with ⟨m, rest, rfl⟩ | hes
  · simp [Element.prepend, h]
  · rw [prepend_literal hes, if_pos h]

/-- Two literals in a row act as one. -/
theorem prepend_prepend_literal {l m n : Literal} (h : n.text = l.text ++ m.text)
    (es : List Element) :
    (Element.literal l).prepend ((Element.literal m).prepend es) = (Element.literal n).prepend es := by
  rcases literal_head_or es with ⟨k, rest, rfl⟩ | hes
  · simp [Element.prepend, h, String.append_assoc]
  · by_cases hm : m.text = ""
    · rw [prepend_of_empty hm, prepend_literal hes, prepend_literal hes, h, hm, String.append_empty]
    · have hn : n.text ≠ "" := by simp [h, hm]
      rw [prepend_literal hes, prepend_literal hes, if_neg hm, if_neg hn, h]
      rfl

/-- Of a literal, only its text counts. -/
theorem prepend_literal_congr {l m : Literal} (h : l.text = m.text) (es : List Element) :
    (Element.literal l).prepend es = (Element.literal m).prepend es := by
  rcases literal_head_or es with ⟨k, rest, rfl⟩ | hes
  · simp [Element.prepend, h]
  · rw [prepend_literal hes, prepend_literal hes, h]

/-- What stands before fused elements can be fused first. -/
theorem prepend_foldr (e : Element) (es fs : List Element) :
    (e.prepend es).foldr Element.prepend fs = e.prepend (es.foldr Element.prepend fs) := by
  cases e with
  | literal l =>
    -- only a literal before a literal could be fused in two orders
    rcases literal_head_or es with ⟨m, rest, rfl⟩ | hes
    · exact (prepend_prepend_literal rfl _).symm
    · rw [prepend_literal hes]
      split
      · rename_i hl
        exact (prepend_of_empty hl _).symm
      · exact prepend_literal_congr (l := ⟨l.text, default⟩) (m := l) rfl _
  | reference v => rfl
  | substitution s => rfl
  | separator s => rfl

/-- Joining what was joined before joins as much. -/
theorem foldr_fuse (es fs : List Element) :
    (fuse es).foldr Element.prepend fs = es.foldr Element.prepend fs := by
  induction es with
  | nil => rfl
  | cons e es ih => rw [fuse_cons, prepend_foldr, ih, List.foldr_cons]

/-- Elements are joined across the seam between two lists of them. -/
theorem fuse_append (es fs : List Element) :
    fuse (es ++ fs) = (fuse es).foldr Element.prepend (fuse fs) := by
  rw [foldr_fuse, fuse, List.foldr_append]
  rfl

/-- Fused elements that are equal stay equal next to others that are. -/
theorem fuse_append_congr {es es' fs fs' : List Element} (h : fuse es = fuse es')
    (h' : fuse fs = fuse fs') : fuse (es ++ fs) = fuse (es' ++ fs') := by
  rw [fuse_append, fuse_append, h, h']

/-- Literals that together are a text fuse as that text does. -/
theorem fuse_literals (literals : List Literal) (origin : Location) :
    fuse (literals.map .literal) =
      fuse [.literal ⟨String.join (literals.map Literal.text), origin⟩] := by
  induction literals with
  | nil => rfl
  | cons l literals ih =>
    rw [List.map_cons, fuse_cons, ih]
    exact prepend_prepend_literal (by simp) []

/-! ## What fused words stand for -/

/-- Whether substitutions mean the same wherever they stand. -/
def Resolver.IgnoresOrigins [Output] (resolver : Resolver) : Prop :=
  ∀ s origin, resolver.runSubstitution { s with origin } = resolver.runSubstitution s

/-- Values of variables do not depend on where these stand. -/
theorem VariableMap.ignoresOrigins [Output] (m : VariableMap) : m.toResolver.IgnoresOrigins :=
  fun _ _ => rfl

section

variable [Output] {resolver : Resolver}

/-- A token resolves to the text of its first element and the text of the others. -/
theorem resolve_cons (e : Element) (es : List Element) :
    Token.resolve resolver ⟨e :: es⟩ = (do
      let text ← e.resolve resolver
      let rest ← Token.resolve resolver ⟨es⟩
      return text ++ rest) := by
  simp [Token.resolve, String.join_cons]

/-- An element resolves to the same without its origin. -/
theorem resolve_unplaced (h : resolver.IgnoresOrigins) (e : Element) :
    e.unplaced.resolve resolver = e.resolve resolver := by
  cases e with
  | substitution s =>
    simp only [Element.unplaced, Element.resolve]
    rw [h s default]
  | _ => rfl

/-- Joining literals changes nothing about the text. -/
theorem resolve_prepend (h : resolver.IgnoresOrigins) (e : Element) (es : List Element) :
    Token.resolve resolver ⟨e.prepend es⟩ = Token.resolve resolver ⟨e :: es⟩ := by
  cases e with
  | literal l =>
    rcases literal_head_or es with ⟨m, rest, rfl⟩ | hes
    · simp only [Element.prepend, resolve_cons, Element.resolve, pure_bind, bind_assoc,
        String.append_assoc]
    · rw [prepend_literal hes]
      split
      · rename_i hl
        have hid : HAppend.hAppend "" = (id : String → String) := funext fun _ => String.empty_append
        simp [resolve_cons, Element.resolve, hl, hid]
      · simp only [resolve_cons, Element.resolve]
  | reference v => rfl
  | substitution s =>
    exact (resolve_cons _ _).trans (by rw [resolve_unplaced h, ← resolve_cons])
  | separator s => rfl

/-- Fusing does not change what a word stands for. -/
theorem resolve_fuse (h : resolver.IgnoresOrigins) (es : List Element) :
    Token.resolve resolver ⟨fuse es⟩ = Token.resolve resolver ⟨es⟩ := by
  induction es with
  | nil => rfl
  | cons e es ih => rw [fuse_cons, resolve_prepend h, resolve_cons, ih, ← resolve_cons]

/-- Words that are equal when fused stand for the same arguments. -/
theorem mapM_resolve_congr (h : resolver.IgnoresOrigins) {ts us : List Token}
    (hfuse : List.Forall₂ (fun t u => fuse u.elements = fuse t.elements) ts us) :
    us.mapM (Token.resolve resolver) = ts.mapM (Token.resolve resolver) := by
  induction hfuse with
  | nil => rfl
  | @cons t u ts us htu _ ih =>
    have hword : u.resolve resolver = t.resolve resolver := by
      rw [← show Token.resolve resolver ⟨u.elements⟩ = _ from rfl, ← resolve_fuse h, htu,
        resolve_fuse h]
    rw [List.mapM_cons, List.mapM_cons, hword, ih]

end

/-! ## Words from their source -/

namespace Lexer

variable {escape : EscapeSet}

/-- What is read one after the other is read together. -/
theorem Reads.append {source source' : String} {v v' w : List Element → Prop}
    (h : Reads escape source v) (h' : Reads escape source' v')
    (hw : ∀ fs fs', v fs → v' fs' → w (fs ++ fs')) : Reads escape (source ++ source') w := by
  intro commandOpen es l rest hl
  have hl₀ : l.input.rest = Utf8.encode source ++ (Utf8.encode source' ++ rest) := by
    rw [hl]
    simp [Utf8.encode]
  obtain ⟨fs, l₁, hr₁, hne, hreadable₁, hfs, hl₁⟩ := h commandOpen es l _ hl₀
  obtain ⟨fs', l₂, hr₂, -, hreadable₂, hfs', hl₂⟩ := h' commandOpen (es ++ fs) l₁ rest hl₁
  refine ⟨fs ++ fs', l₂, ?_, by simp [hne], hreadable₁.append hreadable₂, hw _ _ hfs hfs', hl₂⟩
  rw [hr₁, hr₂, List.append_assoc]

variable (hescape : ∀ c ∈ ['\'', '"', '$'], escape.contains c = false)

include hescape

/-- A readable element comes back, but for origins and for how a literal is cut. -/
theorem reads_element {e : Element} (he : e.Readable) :
    Reads escape e.toSource (fun fs => fuse fs = fuse [e]) := by
  have hsingle := hescape '\'' (by simp)
  have hdouble := hescape '"' (by simp)
  have hdollar := hescape '$' (by simp)
  cases e with
  | literal literal =>
    intro commandOpen es l rest h
    obtain ⟨fs, l', hr, hne, hreadable, ⟨literals, rfl, htext⟩, hl'⟩ :=
      reads_quote hsingle hdouble literal.text commandOpen es l rest h
    refine ⟨_, l', hr, hne, hreadable, ?_, hl'⟩
    exact (fuse_literals literals literal.origin).trans (by rw [htext])
  | reference v =>
    intro commandOpen es l rest h
    obtain ⟨l', hr, hl'⟩ := readOn_reference hdollar he h
    exact ⟨_, l', hr, by simp, .singleton he, rfl, hl'⟩
  | substitution s =>
    intro commandOpen es l rest h
    obtain ⟨origin, l', hr, hl'⟩ := readOn_substitution commandOpen es hdollar he h
    exact ⟨_, l', hr, by simp, .singleton he, rfl, hl'⟩
  | separator s => exact he.elim

/-- So does a word of readable elements. -/
theorem reads_elements {es : List Element} (hne : es ≠ []) (hes : AllReadable es) :
    Reads escape (Token.toSource ⟨es⟩) (fun fs => fuse fs = fuse es) := by
  induction es with
  | nil => exact (hne rfl).elim
  | cons e es ih =>
    have he := reads_element hescape (hes e (by simp))
    cases es with
    | nil => simpa [Token.toSource] using he
    | cons e' es =>
      have hrest := ih (by simp) fun f hf => hes f (by simp [hf])
      rw [show Token.toSource ⟨e :: e' :: es⟩ = e.toSource ++ Token.toSource ⟨e' :: es⟩ by
        simp [Token.toSource]]
      exact he.append hrest fun fs fs' hfs hfs' => fuse_append_congr hfs hfs'

end Lexer

/-! ## Scripts from their source -/

/-- Whether a command is another one but for origins and for how literal text is cut into literals. -/
structure Command.Restores (d c : Command) : Prop where
  terminator : d.terminator = c.terminator
  tokens : List.Forall₂ (fun t u => fuse u.elements = fuse t.elements) c.tokens d.tokens
  argv : ∀ [Output] (m : VariableMap), d.argv m.toResolver = c.argv m.toResolver

namespace Parser

variable {p : Parser Cursor}

/-- The source of a readable script is read as that script. -/
theorem items_of_readableScript (hescape : ∀ c ∈ ['\'', '"', '$', ' '], p.escape.contains c = false)
    (hfailed : p.failed = false) {cs : List Command} (hcs : ReadableScript p.escape cs)
    (h : p.lexer.input.rest = Utf8.encode (String.join (cs.map Command.toSource))) :
    ∃ ds : List Command, p.items.1 = ds.map .ok ∧ List.Forall₂ (fun c d => d.Restores c) cs ds := by
  induction cs generalizing p with
  | nil => exact ⟨[], items_of_rest (by simpa [Utf8.encode] using h), .nil⟩
  | cons c cs ih =>
    obtain ⟨hc, hlast, hcs⟩ := hcs
    have hspecial : ∀ c ∈ ['\'', '"', '$'], p.escape.contains c = false :=
      fun x hx => hescape x (List.mem_append_left [' '] hx)
    have hreads : ∀ t ∈ c.tokens,
        Lexer.Reads p.escape t.toSource (fun fs => fuse fs = fuse t.elements) :=
      fun t ht => Lexer.reads_elements hspecial (hc.words t ht).1 (hc.words t ht).2
    let rest := Utf8.encode (String.join (cs.map Command.toSource))
    -- a command without a terminator is the last one, and only behind that the input may end
    have hends : Lexer.Ends p.escape c.terminator rest := by
      cases hterminator : c.terminator with
      | none => simp [Lexer.Ends, rest, hlast hterminator, Utf8.encode]
      | some s => exact hc.terminator s hterminator
    have hrest : p.lexer.input.rest = Utf8.encode (String.intercalate " " (c.tokens.map Token.toSource) ++
        (c.terminator.map Separator.toSource).getD "") ++ rest := by
      rw [h]
      simp [rest, Utf8.encode, Command.toSource]
    obtain ⟨d, l, hnext, hwords, hterminator, hl⟩ :=
      next_of_reads hfailed (hescape ' ' (by simp)) hends hc.tokens hreads hrest
    obtain ⟨ds, hds, hall⟩ := ih (p := { p with lexer := l }) hescape hfailed hcs hl
    refine ⟨d :: ds, ?_, .cons ⟨hterminator, hwords, fun m => ?_⟩ hall⟩
    · rw [items_eq, hnext]
      simp [hds]
    · exact mapM_resolve_congr m.ignoresOrigins hwords

/-- A script that is read to its end without an error survives being written back. -/
theorem collect_toSource {escape : EscapeSet}
    (hescape : ∀ c ∈ ['\'', '"', '$', ' '], escape.contains c = false) (filename filename' : String)
    {bytes : List UInt8} {cs : List Command}
    (h : (ofBytes bytes filename escape).collect.1 = .ok cs) :
    ∃ ds : List Command,
      (ofBytes (Utf8.encode (String.join (cs.map Command.toSource))) filename' escape).collect.1 =
        .ok ds ∧ List.Forall₂ (fun c d => d.Restores c) cs ds := by
  rw [collect_eq_ok, items_ofBytes] at h
  have hscript := readableScript_of_items h
  obtain ⟨ds, hds, hall⟩ := items_of_readableScript
    (p := ofCursor (Utf8.encode (String.join (cs.map Command.toSource))) filename' escape)
    hescape rfl hscript rfl
  refine ⟨ds, ?_, hall⟩
  rw [collect_eq_ok, items_ofBytes, hds]

/-- The script `a$x;` is written back as `'a'${x};`. -/
theorem collect_toSource_reference :
    (∀ c ∈ ['\'', '"', '$', ' '], EscapeSet.default.contains c = false) ∧
      ∃ cs : List Command, (ofBytes (Utf8.encode "a$x;") "s" .default).collect.1 = .ok cs ∧
        ∃ ds : List Command,
          (ofBytes (Utf8.encode "'a'$\x7bx\x7d;") "s" .default).collect.1 = .ok ds ∧
            List.Forall₂ (fun c d => d.Restores c) cs ds := by
  have hescape : ∀ c ∈ ['\'', '"', '$', ' '], EscapeSet.default.contains c = false := by
    simp [EscapeSet.contains_default]
  let c : Command := ⟨[⟨[.literal ⟨"a", ⟨"s", .start⟩⟩, .reference { name := "x" }]⟩], some .semicolon,
    ⟨"s", .start⟩⟩
  have hcollect : (ofBytes (Utf8.encode "a$x;") "s" .default).collect.1 = .ok [c] := by
    decide +kernel
  have hsource : String.join ([c].map Command.toSource) = "'a'$\x7bx\x7d;" := by decide +kernel
  have hback := collect_toSource hescape "s" "s" hcollect
  rw [hsource] at hback
  exact ⟨hescape, [c], hcollect, hback⟩

end Parser

end ShellScript
