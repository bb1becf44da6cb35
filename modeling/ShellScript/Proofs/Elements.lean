import Mathlib.Data.List.TakeWhile
import ShellScript.Proofs.Texts

/-!
# Elements that can be read back

`Element.Readable` says that the source of an element reads as that element. Every element that a lexer
reads outside quotes or inside double quotes is readable, which is what the theorems named `readable_of_…`
establish for one read after the other.
-/

namespace ShellScript

/-! ## Braced bodies -/

/-- A body is its parameter and what stands behind that. -/
theorem splitParameter_append (cs : List Char) :
    (splitParameter cs).1 ++ (splitParameter cs).2 = cs := by
  unfold splitParameter
  split
  · rfl
  · split
    · exact List.takeWhile_append_dropWhile
    split
    · rfl
    split
    · exact congrArg _ List.takeWhile_append_dropWhile
    · rfl

namespace VariableRef

variable {body : String} {p : Location} {v : VariableRef}

/-- A reference keeps the whole text between the braces. -/
theorem body_of_ofBody (h : ofBody body p = .ok v) : v.body = body := by
  have hsplit := splitParameter_append body.toList
  unfold ofBody at h
  split at h
  · cases h
  · split at h <;> rename_i hs <;> cases h <;> rw [hs] at hsplit
    · simp only [List.append_nil] at hsplit
      simp [VariableRef.body, hsplit]
    · simp [VariableRef.body, ← String.ofList_append, hsplit]

/-- Where a body stands matters to errors only. -/
theorem ofBody_congr (h : ofBody body p = .ok v) (q : Location) : ofBody body q = .ok v := by
  unfold ofBody at h ⊢
  split at h
  · cases h
  · rename_i hlength
    rw [if_neg hlength]
    split at h <;> cases h <;> simp_all

end VariableRef

/-! ## Names -/

/-- Characters that mean nothing in a body between braces. -/
def isNeutral (c : Char) : Bool :=
  !(c = '\\' || c = '\'' || c = '"' || c = '{' || c = '}')

/-- A neutral character leaves a body as it is. -/
theorem feed_of_isNeutral {c : Char} (h : isNeutral c = true) :
    Nesting.feed .braces {} c = some {} := by
  simp [isNeutral] at h
  simp [Nesting.feed, Brackets.braces, h]

/-- Neutral text is enclosed. -/
theorem encloses_of_isNeutral {cs : List Char} (h : ∀ c ∈ cs, isNeutral c = true) :
    Brackets.braces.Encloses cs := by
  refine ⟨{}, ?_, rfl⟩
  induction cs with
  | nil => rfl
  | cons c cs ih =>
    rw [List.foldlM_cons, feed_of_isNeutral (h c (by simp))]
    exact ih fun d hd => h d (by simp [hd])

/-- Characters of names mean nothing between braces. -/
theorem isNeutral_of_isNameChar {c : Char} (h : isNameChar c = true) : isNeutral c = true := by
  rw [isNeutral, Bool.not_eq_true', Bool.eq_false_iff]
  intro hc
  simp only [Bool.or_eq_true, decide_eq_true_eq] at hc
  rcases hc with (((rfl | rfl) | rfl) | rfl) | rfl <;> exact absurd h (by decide)

/-- A name may go on with whatever it may start with. -/
theorem isNameChar_of_isNameStart {c : Char} (h : isNameStart c = true) : isNameChar c = true := by
  simp only [isNameStart, isNameChar, Bool.or_eq_true, Char.isAlphanum] at h ⊢
  exact h.imp_left .inl

/-- The names of special parameters mean nothing between braces. -/
theorem isNeutral_of_isSpecialParameter {c : Char} (h : isSpecialParameter c = true) :
    isNeutral c = true := by
  rw [isNeutral, Bool.not_eq_true', Bool.eq_false_iff]
  intro hc
  simp only [Bool.or_eq_true, decide_eq_true_eq] at hc
  rcases hc with (((rfl | rfl) | rfl) | rfl) | rfl <;> exact absurd h (by decide)

/-- No name starts with a digit. -/
theorem not_isDigit_of_isNameStart {c : Char} (h : isNameStart c = true) : c.isDigit = false := by
  rw [Bool.eq_false_iff]
  intro hd
  change (decide (48 ≤ c.val) && decide (c.val ≤ 57)) = true at hd
  change (decide (65 ≤ c.val ∧ c.val ≤ 90) ||
    decide (97 ≤ c.val) && decide (c.val ≤ 122) || decide (c = '_')) = true at h
  simp only [Bool.or_eq_true, Bool.and_eq_true, decide_eq_true_eq, UInt32.le_iff_toNat_le] at h hd
  rcases h with (h | h) | rfl
  · simp at h hd
    omega
  · simp at h hd
    omega
  · simp at hd

/-- What starts a name is no special parameter. -/
theorem not_isSpecialParameter_of_isNameStart {c : Char} (h : isNameStart c = true) :
    isSpecialParameter c = false := by
  rw [Bool.eq_false_iff]
  intro hs
  simp only [isSpecialParameter, not_isDigit_of_isNameStart h, Bool.or_eq_true, decide_eq_true_eq,
    Bool.false_eq_true, or_false] at hs
  rcases hs with (((((rfl | rfl) | rfl) | rfl) | rfl) | rfl) | rfl <;> exact absurd h (by decide)

/-- An identifier between braces is a reference without modifier. -/
theorem ofBody_identifier {c : Char} {tail : List Char} (hc : isNameStart c = true)
    (htail : ∀ d ∈ tail, isNameChar d = true) (p : Location) :
    VariableRef.ofBody (String.ofList (c :: tail)) p = .ok { name := String.ofList (c :: tail) } := by
  have hlength : asksLength (c :: tail) = false := by
    unfold asksLength
    split
    · rename_i heq
      cases heq
      exact absurd hc (by decide)
    · rfl
  have hsplit : splitParameter (c :: tail) = (c :: tail, []) := by
    rw [splitParameter, not_isDigit_of_isNameStart hc, not_isSpecialParameter_of_isNameStart hc, hc,
      List.takeWhile_eq_self_iff.mpr htail, List.dropWhile_eq_nil_iff.mpr htail]
    rfl
  simp [VariableRef.ofBody, hlength, hsplit]

/-- So is a special parameter. -/
theorem ofBody_special {c : Char} (hc : isSpecialParameter c = true) (p : Location) :
    VariableRef.ofBody c.toString p = .ok { name := c.toString } := by
  have hlength : asksLength [c] = false := by
    unfold asksLength
    split
    · rename_i heq
      cases heq
      rfl
    · rfl
  have hsplit : splitParameter [c] = ([c], []) := by
    cases hd : c.isDigit <;> simp [splitParameter, hd, hc]
  simp [VariableRef.ofBody, Char.toString, hlength, hsplit]

/-! ## Readable elements -/

/-- Whether the source of an element reads as the element. A separator is no part of a word. -/
def Element.Readable : Element → Prop
  | .literal _ => True
  | .reference v =>
    Brackets.braces.Encloses v.body.toList ∧ ∀ p, VariableRef.ofBody v.body p = .ok v
  | .substitution s =>
    Brackets.parentheses.Encloses s.source.toList ∧ s.source.toList.head? ≠ some '('
  | .separator _ => False

/-- A readable element is no separator. -/
theorem Element.Readable.separator?_eq {e : Element} (h : e.Readable) : e.separator? = none := by
  cases e with
  | separator s => exact h.elim
  | _ => rfl

/-- A list of readable elements. -/
def AllReadable (es : List Element) : Prop := ∀ e ∈ es, e.Readable

namespace AllReadable

variable {es fs : List Element}

/-- No elements are readable. -/
theorem nil : AllReadable [] := by simp [AllReadable]

/-- One readable element is a list of them. -/
theorem singleton {e : Element} (h : e.Readable) : AllReadable [e] := by simpa [AllReadable] using h

/-- Readable elements may stand behind others. -/
theorem append (h : AllReadable es) (h' : AllReadable fs) : AllReadable (es ++ fs) :=
  fun e he => (List.mem_append.mp he).elim (h e) (h' e)

/-- The text of a word in the making is readable, as any text is. -/
theorem settle {g : Gathering} (h : AllReadable g.elements) (filename : String) :
    AllReadable (g.settle filename) := by
  unfold Gathering.settle
  split
  · exact h
  · exact h.append (.singleton trivial)

/-- So is the empty text of empty quotes. -/
theorem closeQuotes (h : AllReadable es) (opening : Location) :
    AllReadable (Lexer.closeQuotes opening es) := by
  cases es with
  | nil => exact .singleton trivial
  | cons e es => exact h

end AllReadable

namespace Lexer

variable {l l₁ l' : Lexer Cursor}

/-- A parameter that was read in braces is written back as one. -/
theorem readable_of_readBraced {dollar : Position} {v : VariableRef}
    (h : l.readBraced dollar = (.ok v, l')) : (Element.reference v).Readable := by
  unfold readBraced at h
  split at h
  · cases h
  · rename_i body l₁ hbody
    have hv := (Prod.mk.inj h).1
    have hvbody := VariableRef.body_of_ofBody hv
    refine ⟨hvbody ▸ encloses_of_readBody hbody, fun p => ?_⟩
    rw [hvbody]
    exact VariableRef.ofBody_congr hv p

/-- A character that was put back is the next one again. -/
theorem nextRune_unreadRune {c : Char} (h : l.nextRune = (.ok (some c), l₁)) :
    ∃ l₂, l₁.unreadRune.nextRune = (.ok (some c), l₂) := by
  obtain ⟨hc, hl₁⟩ := Cursor.nextRune_of_ok (lift_eq_ok h)
  have hagain : l.input.nextRune.2.unreadRune.2.nextRune.1 = some c := by
    unfold Cursor.nextRune at hc ⊢
    cases hr : l.input.rest with
    | nil =>
      rw [hr] at hc
      cases hc
    | cons lead rest =>
      rw [hr] at hc
      exact hc
  rw [hl₁] at hagain
  exact ⟨_, congrArg (fun rune? => (Except.ok rune?, _)) hagain⟩

/-- There is no character only at the end of the input. -/
theorem nil_of_nextRune_none (h : l.nextRune = (.ok none, l₁)) : l.input.rest = [] := by
  have hc := (Cursor.nextRune_of_ok (lift_eq_ok h)).1
  cases hr : l.input.rest with
  | nil => rfl
  | cons lead rest =>
    unfold Cursor.nextRune at hc
    rw [hr] at hc
    cases hc

/-- Where there is no character, nothing is left. -/
theorem rest_of_nextRune (h : l.nextRune = (.ok none, l₁)) : l₁.input.rest = [] := by
  have hl₁ := (Cursor.nextRune_of_ok (lift_eq_ok h)).2
  unfold Cursor.nextRune at hl₁
  rw [nil_of_nextRune_none h] at hl₁
  exact hl₁ ▸ rfl

/-- A body is not closed at the end of the input. -/
theorem readBody_of_none {pair : Brackets} {construct body : String}
    (hnone : l.nextRune = (.ok none, l₁)) : l₁.readBody pair construct ≠ (.ok body, l') := by
  obtain ⟨l₂, hn, -⟩ := nextRune_end (rest_of_nextRune hnone)
  rw [readBody, iterate_eq]
  simp [bodyStep, hn]

/-- The source of a substitution is the body that was read. -/
theorem readBody_of_readSubstitutionBody {origin : Location} {s : CommandSubstitution}
    (h : l.readSubstitutionBody origin = (.ok s, l')) :
    l.readBody .parentheses "`$(`" = (.ok s.source, l') := by
  unfold readSubstitutionBody at h
  split at h <;> cases h
  rename_i hbody
  exact hbody

/-- A substitution that was read has no parenthesis in front and comes back whole. -/
theorem readable_of_readSubstitution {dollar : Position} {s : CommandSubstitution}
    (h : l.readSubstitution dollar = (.ok s, l')) : (Element.substitution s).Readable := by
  unfold readSubstitution at h
  split at h
  · cases h
  · rename_i hnone
    exact (readBody_of_none hnone (readBody_of_readSubstitutionBody h)).elim
  · rename_i c l₁ hc
    split at h
    · cases h
    · rename_i hne
      obtain ⟨l₂, hl₂⟩ := nextRune_unreadRune hc
      have hbody := readBody_of_readSubstitutionBody h
      refine ⟨encloses_of_readBody hbody, ?_⟩
      -- the body is empty or begins with the character that is no parenthesis
      rcases head?_of_readBody hl₂ hbody with hs | hs
      · simp [hs]
      · simpa [hs] using hne

section

variable {σ : Type} [Input σ] {l l' : Lexer σ}

/-- A name that was read goes on with characters of names. -/
theorem readName_ok {c : Char} {name : String} (h : l.readName c = (.ok name, l')) :
    ∃ tail, name = String.ofList (c :: tail) ∧ ∀ d ∈ tail, isNameChar d = true := by
  let P (name : String) (_ : Lexer σ) :=
    ∃ tail, name = String.ofList (c :: tail) ∧ ∀ d ∈ tail, isNameChar d = true
  have hstep {name name' : String} {l l' : Lexer σ} (hP : P name l)
      (hmore : nameStep name l = (.ok (.more name'), l')) : P name' l' := by
    obtain ⟨tail, rfl, htail⟩ := hP
    obtain ⟨d, -, hd, rfl⟩ := nameStep_more hmore
    refine ⟨tail ++ [d], ?_, ?_⟩
    · rw [← String.toList_inj]
      simp
    · simpa [or_imp, forall_and] using ⟨htail, hd⟩
  obtain ⟨name', l₁, hP, hlast⟩ := iterate_ok (P := P) hstep ⟨[], by simp [Char.toString], by simp⟩ h
  exact nameStep_done hlast ▸ hP

end

/-- A name stands in braces as it does without. -/
theorem readable_identifier {c : Char} {tail : List Char} (hc : isNameStart c = true)
    (htail : ∀ d ∈ tail, isNameChar d = true) :
    (Element.reference { name := String.ofList (c :: tail) }).Readable := by
  have hbody : VariableRef.body { name := String.ofList (c :: tail) } = String.ofList (c :: tail) := by
    simp [VariableRef.body]
  refine ⟨?_, fun p => ?_⟩
  · rw [hbody, String.toList_ofList]
    refine encloses_of_isNeutral fun d hd => isNeutral_of_isNameChar ?_
    rcases List.mem_cons.mp hd with rfl | hd
    · exact isNameChar_of_isNameStart hc
    · exact htail d hd
  · rw [hbody]
    exact ofBody_identifier hc htail p

/-- So does a special parameter. -/
theorem readable_special {c : Char} (hc : isSpecialParameter c = true) :
    (Element.reference { name := c.toString }).Readable := by
  have hbody : VariableRef.body { name := c.toString } = c.toString := by simp [VariableRef.body]
  refine ⟨?_, fun p => ?_⟩
  · rw [hbody]
    refine encloses_of_isNeutral fun d hd => isNeutral_of_isSpecialParameter ?_
    simp only [Char.toString, String.toList_singleton, List.mem_singleton] at hd
    exact hd ▸ hc
  · rw [hbody]
    exact ofBody_special hc p

/-- What a dollar sign introduces is readable, when the character behind it was read. -/
theorem readable_of_readExpansion {dollar : Position} {c : Char} {es : List Element}
    (h : readExpansion dollar c l = (.ok (.elements es), l')) : AllReadable es := by
  unfold readExpansion at h
  split at h
  · split at h <;> cases h
    rename_i hv
    exact .singleton (readable_of_readBraced hv)
  split at h
  · split at h <;> cases h
    rename_i hs
    exact .singleton (readable_of_readSubstitution hs)
  split at h
  · rename_i hstart
    split at h <;> cases h
    rename_i hname
    obtain ⟨tail, rfl, htail⟩ := readName_ok hname
    exact .singleton (readable_identifier hstart htail)
  split at h <;> cases h
  rename_i hspecial
  exact .singleton (readable_special hspecial)

/-- So it is between double quotes. -/
theorem readable_of_readInnerDollar {dollar : Position} {es : List Element}
    (h : l.readInnerDollar dollar = (.ok (.elements es), l')) : AllReadable es := by
  unfold readInnerDollar at h
  split at h
  · cases h
  · cases h
  · exact readable_of_readExpansion h

/-- A backslash adds text only. -/
theorem readable_protect {g : Gathering} (h : AllReadable g.elements) (c : Char) (p : Position) :
    AllReadable (protect g c p).elements := by
  unfold protect
  split
  · exact h
  · split <;> exact h

/-- What stands between double quotes is readable. -/
theorem readable_of_readDoubleQuoted {opening : Position} {es : List Element}
    (h : l.readDoubleQuoted opening = (.ok es, l')) : AllReadable es := by
  let P (g : Gathering) (_ : Lexer Cursor) := AllReadable g.elements
  have hstep {g g' : Gathering} {l l' : Lexer Cursor} (hP : P g l)
      (hmore : doubleQuoteStep opening g l = (.ok (.more g'), l')) : P g' l' := by
    cases doubleQuoteStep_ok hmore with
    | dollar _ read => exact (hP.settle _).append (readable_of_readInnerDollar read)
    | bare => exact hP.settle _
    | escapes => exact readable_protect hP _ _
    | plain => exact hP
  obtain ⟨g, l₁, hP, hlast⟩ := iterate_ok (P := P) hstep .nil h
  cases doubleQuoteStep_ok hlast with
  | closes => exact (hP.settle _).closeQuotes _

/-- So is what a dollar sign introduces outside quotes. -/
theorem readable_of_readDollar {dollar : Position} {es : List Element}
    (h : l.readDollar dollar = (.ok (.elements es), l')) : AllReadable es := by
  unfold readDollar at h
  split at h
  · cases h
  · cases h
  · split at h
    · split at h <;> cases h
      exact .singleton trivial
    split at h
    · split at h <;> cases h
      rename_i hq
      exact readable_of_readDoubleQuoted hq
    · exact readable_of_readExpansion h

end Lexer

end ShellScript
