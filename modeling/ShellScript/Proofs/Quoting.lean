import ShellScript.Exec.Resolver
import ShellScript.Proofs.Sources

/-!
# Quoting is safe

Quoted texts with spaces between them are one command with one word for each text. The words are literal,
so what they stand for does not depend on a resolver (`collect_quoted`).
-/

namespace ShellScript

/-- A word that is a text: literals that together are the text. -/
def SpellsOut (text : String) (es : List Element) : Prop :=
  ∃ literals : List Literal, es = literals.map .literal ∧ String.join (literals.map Literal.text) = text

/-- Quoted text is read as a word that is the text. -/
theorem Lexer.reads_quote {escape : EscapeSet} (hsingle : escape.contains '\'' = false)
    (hdouble : escape.contains '"' = false) (text : String) :
    Lexer.Reads escape (quote text) (SpellsOut text) := by
  intro commandOpen es l rest h
  obtain ⟨literals, l', hr, hne, htext, hl'⟩ := readOn_quote hsingle hdouble text h
  refine ⟨literals.map .literal, l', hr, by simpa using hne, ?_, ⟨literals, rfl, htext⟩, hl'⟩
  intro e he
  obtain ⟨literal, -, rfl⟩ := List.mem_map.mp he
  trivial

/-! ## What literal words stand for -/

section

variable [Output] (resolver : Resolver)

/-- Literals resolve to their texts without asking anybody. -/
theorem mapM_resolve_literals (literals : List Literal) :
    (literals.map Element.literal).mapM (Element.resolve resolver) =
      (pure (literals.map Literal.text) : Action (List String)) := by
  induction literals with
  | nil => rfl
  | cons literal literals ih => simp [Element.resolve, ih]

/-- A literal word is resolved without a resolver. -/
theorem SpellsOut.resolve {text : String} {t : Token} (h : SpellsOut text t.elements) :
    t.resolve resolver = pure text := by
  obtain ⟨literals, hes, htext⟩ := h
  rw [Token.resolve, hes, mapM_resolve_literals]
  simp [htext]

/-- Tokens that spell texts out resolve to these. -/
theorem mapM_resolve_spellsOut {texts : List String} {ts : List Token}
    (h : List.Forall₂ (fun text t => SpellsOut text t.elements) texts ts) :
    ts.mapM (Token.resolve resolver) = (pure texts : Action (List String)) := by
  induction h with
  | nil => rfl
  | cons hword _ ih => simp [hword.resolve, ih]

end

namespace Parser

/-- Quoted texts are one command, whose arguments are the texts whatever the resolver does. -/
theorem collect_quoted {escape : EscapeSet} (hescape : ∀ c ∈ ['\'', '"', ' '], escape.contains c = false)
    (filename : String) {texts : List String} (htexts : texts ≠ []) :
    ∃ command : Command,
      (ofBytes (Utf8.encode (String.intercalate " " (texts.map quote))) filename escape).collect.1 =
        .ok [command] ∧
      command.terminator = none ∧
      List.Forall₂ (fun text t => SpellsOut text t.elements) texts command.tokens ∧
      ∀ [Output] (resolver : Resolver) (run : Run), command.argv resolver run = (.ok texts, run) := by
  have hsingle : escape.contains '\'' = false := hescape _ (by simp)
  have hdouble : escape.contains '"' = false := hescape _ (by simp)
  have hspace : escape.contains ' ' = false := hescape _ (by simp)
  let bytes := Utf8.encode (String.intercalate " " (texts.map quote))
  have hrest : (ofCursor bytes filename escape).lexer.input.rest =
      Utf8.encode (String.intercalate " " (texts.map quote) ++
        ((none : Option Separator).map Separator.toSource).getD "") ++ [] := by
    simp [bytes]
  obtain ⟨command, l, hnext, hwords, hterminator, hl⟩ :=
    next_of_reads (p := ofCursor bytes filename escape) rfl hspace
      (show Lexer.Ends escape none [] from rfl) htexts
      (fun text _ => Lexer.reads_quote hsingle hdouble text) hrest
  refine ⟨command, ?_, hterminator, hwords, fun resolver run => ?_⟩
  · rw [collect_eq_ok, items_ofBytes, items_eq, hnext]
    simp [items_of_rest (p := { ofCursor bytes filename escape with lexer := l }) hl]
  · rw [Command.argv, mapM_resolve_spellsOut resolver hwords]
    rfl

/-- A text with a quote and a separator in it, and an empty one. -/
theorem collect_quoted_apostrophe :
    (∀ c ∈ ['\'', '"', ' '], EscapeSet.default.contains c = false) ∧ ["it's;", ""] ≠ [] ∧
      ∃ command : Command,
        (ofBytes (Utf8.encode "'it'\"'\"'s;' ''") "s" .default).collect.1 = .ok [command] ∧
        ∀ (resolver : Resolver) (run : Run),
          command.argv resolver run = (.ok ["it's;", ""], run) := by
  have hescape : ∀ c ∈ ['\'', '"', ' '], EscapeSet.default.contains c = false := by
    simp [EscapeSet.contains_default]
  have htexts : ["it's;", ""] ≠ [] := by simp
  obtain ⟨command, hcollect, -, -, hargv⟩ := collect_quoted hescape "s" htexts
  exact ⟨hescape, htexts, command, hcollect, hargv⟩

end Parser

end ShellScript
