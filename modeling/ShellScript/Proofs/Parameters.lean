import ShellScript.Proofs.Continuations
import ShellScript.Proofs.WellFormedness

/-!
# Parameters

A dollar sign before the name of a parameter stands for the parameter, in braces and without them. What may
stand between braces is said by `Means`, apart from how it is read: the length of a parameter, which is not
offered, or the longest name at the beginning with whatever is behind it. Outside quotes and between double
quotes, `$name` and `${…}` are read as just that, in any state of a lexer, and what follows them is left
(`parameters_expand`).
-/

namespace ShellScript

/-! ## Braced bodies -/

section

variable {cs name : List Char}

/-- A name has at least one character. -/
theorem ParameterName.ne_nil (h : ParameterName name) : name ≠ [] := by
  cases h with
  | positional nonempty _ => exact nonempty
  | special _ => simp
  | identifier _ _ => simp

/-- Where a name stands at the start of a body, some name is found there. -/
theorem ParameterName.splitParameter_ne_nil (h : ParameterName name) (hbegins : name <+: cs) :
    (splitParameter cs).1 ≠ [] := by
  obtain ⟨rest, rfl⟩ := hbegins
  cases name with
  | nil => exact absurd rfl h.ne_nil
  | cons c tail =>
    have hstart : c.isDigit = true ∨ isSpecialParameter c = true ∨ isNameStart c = true := by
      cases h with
      | positional _ all => exact .inl (all c List.mem_cons_self)
      | special special => exact .inr (.inl special)
      | identifier start _ => exact .inr (.inr start)
    rw [List.cons_append, splitParameter]
    split
    · rename_i hdigit
      rw [List.takeWhile_cons_of_pos hdigit]
      simp
    split
    · simp
    split
    · simp
    · rename_i hdigit hspecial hname
      rcases hstart with h | h | h
      · exact absurd h hdigit
      · exact absurd h hspecial
      · exact absurd h hname

/-- Every name at the start of a body begins the one that is found there. -/
theorem ParameterName.isPrefix_splitParameter (h : ParameterName name) (hbegins : name <+: cs) :
    name <+: (splitParameter cs).1 := by
  have hne := h.splitParameter_ne_nil hbegins
  have hsplit := splitParameter_append cs
  cases hfound : splitParameter cs with
  | mk found modifier =>
    rw [hfound] at hne hsplit
    obtain ⟨-, hdetached⟩ := splitParameter_longest hfound hne
    rcases List.prefix_or_prefix_of_prefix hbegins ⟨modifier, hsplit⟩ with hshorter | ⟨more, rfl⟩
    · exact hshorter
    · -- what the name has more would be more of the one that is found
      rw [← hsplit, List.prefix_append_right_inj] at hbegins
      have hmore : more = [] := by_contra fun hmore => hdetached more hmore hbegins h
      simp [hmore]

/-- A name is found as a whole. -/
theorem ParameterName.splitParameter_eq (h : ParameterName name) : splitParameter name = (name, []) := by
  obtain ⟨more, hmore⟩ := h.isPrefix_splitParameter (List.prefix_refl _)
  have hsplit := splitParameter_append name
  cases hfound : splitParameter name with
  | mk found modifier =>
    rw [hfound] at hmore hsplit
    subst hmore
    obtain ⟨rfl, rfl⟩ : more = [] ∧ modifier = [] := by simpa [List.append_assoc] using hsplit
    rw [List.append_nil]

/-- The length of a parameter is what a number sign before a name asks for. -/
theorem asksLength_iff : asksLength cs = true ↔ ∃ name, ParameterName name ∧ cs = '#' :: name := by
  constructor
  · intro h
    unfold asksLength at h
    split at h
    · rename_i rest
      rw [Bool.and_eq_true, Bool.not_eq_true', List.isEmpty_eq_false_iff, List.isEmpty_iff] at h
      have hsplit := splitParameter_append rest
      rw [h.2, List.append_nil] at hsplit
      exact ⟨rest, hsplit ▸ (splitParameter_longest rfl (hsplit.symm ▸ h.1)).1, rfl⟩
    · cases h
  · rintro ⟨name, hname, rfl⟩
    simp [asksLength, hname.splitParameter_eq, hname.ne_nil]

end

/-- What a text between the braces of an expansion means. A reference keeps the longest name at the start of
the text, and what is behind it as its modifier, if there is anything. -/
inductive Means (body : String) (p : Location) : Except ParseError VariableRef → Prop
  | length {name} (parameter : ParameterName name) (hash : body.toList = '#' :: name) :
    Means body p (.error (.unsupported "length expansion" p))
  | bad (noLength : ∀ name, ParameterName name → body.toList ≠ '#' :: name)
    (noName : ∀ name, ParameterName name → ¬name <+: body.toList) :
    Means body p (.error (.badSubstitution ("$\x7b" ++ body ++ "\x7d") p))
  | reference {v} (noLength : ∀ name, ParameterName name → body.toList ≠ '#' :: name)
    (parameter : ParameterName v.name.toList)
    (longest : ∀ name, ParameterName name → name <+: body.toList → name <+: v.name.toList)
    (whole : v.name ++ v.modifier.getD "" = body) (modifier : v.modifier ≠ some "") :
    Means body p (.ok v)

namespace Means

variable {body : String} {p : Location} {r r' : Except ParseError VariableRef}

/-- A braced body is read as what it means. -/
theorem ofBody (body : String) (p : Location) : Means body p (VariableRef.ofBody body p) := by
  cases hlength : asksLength body.toList with
  | true =>
    obtain ⟨name, hname, hbody⟩ := asksLength_iff.mp hlength
    rw [VariableRef.ofBody, if_pos hlength]
    exact .length hname hbody
  | false =>
    have hnone : ∀ name, ParameterName name → body.toList ≠ '#' :: name := by
      intro name hname hbody
      rw [asksLength_iff.mpr ⟨name, hname, hbody⟩] at hlength
      cases hlength
    -- no shorter name is taken: a name at the start of the body is a part of the parameter
    have hlongest : ∀ name, ParameterName name → name <+: body.toList →
        name <+: (splitParameter body.toList).1 := fun name hname => hname.isPrefix_splitParameter
    have hwhole := splitParameter_append body.toList
    rw [VariableRef.ofBody, if_neg (by simp [hlength])]
    split
    · rename_i hfound
      refine .bad hnone fun name hname hbegins => hname.splitParameter_ne_nil hbegins ?_
      rw [hfound]
    · rename_i name hname hfound
      rw [hfound] at hlongest hwhole
      refine .reference hnone ?_ (by simpa using hlongest) ?_ (Option.some_ne_none _).symm
      · simpa using (splitParameter_longest hfound hname).1
      · rw [← String.toList_inj, ← hwhole]
        simp
    · rename_i name modifier hname hmodifier hfound
      rw [hfound] at hlongest hwhole
      refine .reference hnone ?_ (by simpa using hlongest) ?_ ?_
      · simpa using (splitParameter_longest hfound hname).1
      · rw [← String.toList_inj, ← hwhole]
        simp
      · simpa [← String.toList_inj] using hmodifier

/-- The body of a reference begins with its name. -/
theorem isPrefix_of_whole {v : VariableRef} (h : v.name ++ v.modifier.getD "" = body) :
    v.name.toList <+: body.toList := by
  rw [← h, String.toList_append]
  exact List.prefix_append _ _

/-- A text between braces means one thing. -/
theorem unique (h : Means body p r) (h' : Means body p r') : r = r' := by
  cases h with
  | length parameter hash =>
    cases h' with
    | length _ _ => rfl
    | bad noLength _ => exact absurd hash (noLength _ parameter)
    | reference noLength _ _ _ _ => exact absurd hash (noLength _ parameter)
  | bad noLength noName =>
    cases h' with
    | length parameter hash => exact absurd hash (noLength _ parameter)
    | bad _ _ => rfl
    | reference _ parameter _ whole _ => exact absurd (isPrefix_of_whole whole) (noName _ parameter)
  | @reference v noLength parameter longest whole modifier =>
    cases h' with
    | length parameter' hash => exact absurd hash (noLength _ parameter')
    | bad _ noName => exact absurd (isPrefix_of_whole whole) (noName _ parameter)
    | @reference v' _ parameter' longest' whole' modifier' =>
      -- each name is at least as long as the other one, and both begin the body
      have hname : v.name = v'.name := by
        have hle := longest' _ parameter (isPrefix_of_whole whole)
        have hge := longest _ parameter' (isPrefix_of_whole whole')
        exact String.toList_inj.mp (hle.eq_of_length_le hge.length_le)
      have hmodifier : v.modifier.getD "" = v'.modifier.getD "" := by
        rw [hname, ← whole'] at whole
        simpa [← String.toList_inj] using whole
      obtain ⟨name, m⟩ := v
      obtain ⟨name', m'⟩ := v'
      cases hname
      cases m <;> cases m' <;> simp_all

/-- What is made of a text between braces is what it means, and nothing else is. -/
theorem iff_ofBody : Means body p r ↔ VariableRef.ofBody body p = r :=
  ⟨(ofBody body p).unique, fun h => h ▸ ofBody body p⟩

end Means

/-! ## After a dollar sign -/

/-- A name that needs no braces before `rest`: one special character, or an identifier that `rest` does not go on
with. -/
inductive Unbraced : List Char → List Char → Prop
  | special {c rest} (special : isSpecialParameter c = true) : Unbraced [c] rest
  | identifier {c tail rest} (start : isNameStart c = true) (all : ∀ d ∈ tail, isNameChar d = true)
    (stops : ∀ d ∈ rest.head?, isNameChar d = false) : Unbraced (c :: tail) rest

namespace Lexer

variable {l : Lexer Cursor} {c : Char} {source rest tail : List Char}
variable {answer : Location → Except ParseError VariableRef}

/-- An identifier is read up to what it does not go on with. -/
theorem readName_chars (first : Char) (htail : ∀ d ∈ tail, isNameChar d = true)
    (hrest : ∀ d ∈ rest.head?, isNameChar d = false) (h : l.input.rest = Utf8.encodeChars (tail ++ rest)) :
    ∃ l', l.readName first = (.ok (String.ofList (first :: tail)), l') ∧
      l'.input.rest = Utf8.encodeChars rest := by
  -- each character moves from what is left to the name, so the name is any
  suffices hloop : ∀ name, ∃ l', iterate nameStep size_nameStep_lt name l =
      (.ok (name ++ String.ofList tail), l') ∧ l'.input.rest = Utf8.encodeChars rest by
    simpa [readName, Char.toString, String.ofList_cons] using hloop first.toString
  induction tail generalizing l with
  | nil =>
    intro name
    cases rest with
    | nil =>
      obtain ⟨l', hn, hl'⟩ := nextRune_end (by simpa using h)
      exact ⟨l', by simp [iterate_eq, nameStep, hn], hl'⟩
    | cons d rest =>
      obtain ⟨l', hn, -, hback⟩ := nextRune_encoded (c := d) h
      exact ⟨l'.unreadRune, by simp [iterate_eq, nameStep, hn, hrest d rfl], hback.trans h⟩
  | cons d tail ih =>
    intro name
    obtain ⟨l₁, hn, hl₁, -⟩ := nextRune_encoded (c := d) h
    obtain ⟨l', hrun, hl'⟩ := ih (fun c hc => htail c (by simp [hc])) hl₁ (name.push d)
    refine ⟨l', ?_, hl'⟩
    rw [iterate_eq]
    simp only [nameStep, hn, htail d (by simp), if_true]
    rw [hrun, String.push_eq_append, String.append_assoc, ← String.ofList_cons]

/-- What a dollar sign before `source` introduces: a reference, or the error that stands for it. -/
def Introduces (source rest : List Char) (answer : Location → Except ParseError VariableRef) : Prop :=
  ∀ (l : Lexer Cursor) (dollar : Position), l.input.rest = Utf8.encodeChars (source ++ rest) → ∃ l',
    l.readDollar dollar = ((answer (l.place dollar)).map fun v => .elements [.reference v], l') ∧
    l.readInnerDollar dollar = ((answer (l.place dollar)).map fun v => .elements [.reference v], l') ∧
    l'.input.rest = Utf8.encodeChars rest

/-- It is read after the first character of `source`. -/
theorem Introduces.of_readExpansion (tail : List Char) (hsingle : c ≠ '\'') (hdouble : c ≠ '"')
    (h : ∀ (l : Lexer Cursor) (dollar : Position), l.input.rest = Utf8.encodeChars (tail ++ rest) → ∃ l',
      l.readExpansion dollar c =
        ((answer (l.place dollar)).map fun v => .elements [.reference v], l') ∧
      l'.input.rest = Utf8.encodeChars rest) : Introduces (c :: tail) rest answer := by
  intro l dollar hl
  obtain ⟨l₁, hn, htakes, -⟩ := nextRune_takes (c := c) hl
  obtain ⟨l', hr, hl'⟩ := h l₁ dollar (htakes.rest_eq hl)
  have hinner : l.readInnerDollar dollar =
      ((answer (l.place dollar)).map fun v => .elements [.reference v], l') := by
    simp only [readInnerDollar, hn, hr, place, htakes.filename]
  exact ⟨l', (readDollar_eq_readInnerDollar dollar hn hsingle hdouble).trans hinner, hinner, hl'⟩

/-- Behind a dollar sign, a special character names its parameter. -/
theorem introduces_special (hc : isSpecialParameter c = true) :
    Introduces [c] rest fun _ => .ok { name := String.ofList [c] } := by
  have hne {d : Char} (hd : isSpecialParameter d = false) : c ≠ d :=
    ne_of_apply_ne isSpecialParameter (by simp [hc, hd])
  have hstart : isNameStart c = false := by
    rw [← Bool.not_eq_true]
    intro hstart
    rw [not_isSpecialParameter_of_isNameStart hstart] at hc
    cases hc
  refine Introduces.of_readExpansion [] (hne rfl) (hne rfl) fun l dollar hl => ⟨l, ?_, hl⟩
  unfold readExpansion
  rw [if_neg (hne (by decide)), if_neg (hne (by decide)), if_neg (by simp [hstart]), if_pos hc]
  rfl

/-- An identifier does, if what follows does not go on with it. -/
theorem introduces_identifier (hc : isNameStart c = true) (htail : ∀ d ∈ tail, isNameChar d = true)
    (hrest : ∀ d ∈ rest.head?, isNameChar d = false) :
    Introduces (c :: tail) rest fun _ => .ok { name := String.ofList (c :: tail) } := by
  have hne {d : Char} (hd : isNameStart d = false) : c ≠ d :=
    ne_of_apply_ne isNameStart (by simp [hc, hd])
  refine Introduces.of_readExpansion tail (hne (by decide)) (hne (by decide)) fun l dollar hl => ?_
  obtain ⟨l', hr, hl'⟩ := readName_chars c htail hrest hl
  refine ⟨l', ?_, hl'⟩
  unfold readExpansion
  rw [if_neg (hne (by decide)), if_neg (hne (by decide)), if_pos hc, hr]
  rfl

/-- A body in braces does, or is refused, whatever follows. -/
theorem introduces_braced {body : String} (hbody : Brackets.braces.Encloses body.toList) (rest : List Char) :
    Introduces ('{' :: body.toList ++ ['}']) rest (VariableRef.ofBody body) := by
  refine Introduces.of_readExpansion _ (by decide) (by decide) fun l dollar hl => ?_
  have hclosing : l.input.rest =
      Utf8.encodeChars body.toList ++ (String.utf8EncodeChar '}' ++ Utf8.encodeChars rest) := by
    simpa using hl
  obtain ⟨l', hr, hl'⟩ := readBody_chars "`$\x7b`" hbody hclosing
  refine ⟨l', ?_, hl'⟩
  rw [String.ofList_toList] at hr
  unfold readExpansion readBraced
  simp only [if_true, hr]
  cases VariableRef.ofBody body (l.place dollar) <;> rfl

/-! ## On streams -/

/-- A character of a stream that does not fail, and of the bytes that are left of it. -/
theorem nextRune_onStream {l : Lexer Scanner} {bytes : List UInt8} (steady : l.input.reader.Steady)
    (h : l.input.unread = String.utf8EncodeChar c ++ bytes) : ∃ l₁ m₁,
    l.nextRune = (.ok (some c), l₁) ∧ (Correspondence.ofReader l.filename).Sim l₁ m₁ ∧
      l₁.filename = l.filename ∧ m₁.place l.position = l.location ∧ m₁.input.rest = bytes := by
  have hleft : l.overCursor.input.rest = String.utf8EncodeChar c ++ bytes := h
  obtain ⟨m₁, hm, htakes, -⟩ := nextRune_takes hleft
  obtain ⟨l₁, hn, sim⟩ := (Correspondence.exact_ofReader l.filename).eq_of_agree
    (sim_overCursor steady).nextRune (fun _ _ h => h.symm) hm
  have hfilename : m₁.filename = l.filename := htakes.filename
  exact ⟨l₁, m₁, hn, sim, sim.filename.symm.trans hfilename, by rw [place, hfilename]; rfl,
    htakes.rest_eq hleft⟩

/-- An expansion that moved nowhere is the same. -/
theorem expanded_same {e e' : Expansion} (h : Relocation.same.Expanded e e') : e' = e := by
  cases h with
  | elements moved => rw [Correspondence.moved_same moved]
  | bare => rfl
  | atEnd => rfl

/-- Whether `source` is read as an expansion before `rest`, whatever was read before it: one step outside quotes,
and one between double quotes, adds the reference that is the answer at the place of its dollar sign or fails
with the error that is, and leaves `rest`. -/
structure Expands (source rest : List Char) (answer : Location → Except ParseError VariableRef) : Prop where
  word {escape : EscapeSet} (hdollar : escape.contains '$' = false) (commandOpen : Bool) (g : Gathering)
    {l : Lexer Scanner} (steady : l.input.reader.Steady)
    (h : l.input.unread = Utf8.encodeChars (source ++ rest)) : ∃ l',
    l.wordStep escape commandOpen g = ((answer l.location).map fun v =>
        .more { elements := g.settle l.filename ++ [.reference v] }, l') ∧
      l'.input.unread = Utf8.encodeChars rest
  doubleQuotes (opening : Position) (g : Gathering) {l : Lexer Scanner} (steady : l.input.reader.Steady)
    (h : l.input.unread = Utf8.encodeChars (source ++ rest)) : ∃ l',
    l.doubleQuoteStep opening g = ((answer l.location).map fun v =>
        .more { elements := g.settle l.filename ++ [.reference v] }, l') ∧
      l'.input.unread = Utf8.encodeChars rest

/-- What is introduced in text held in memory is what lexers on a stream read. -/
theorem Introduces.expands (h : Introduces source rest answer) : Expands ('$' :: source) rest answer where
  word hdollar commandOpen g l steady hl := by
    obtain ⟨l₁, m₁, hn, sim, hfilename, hplace, hm₁⟩ := nextRune_onStream (c := '$') steady hl
    obtain ⟨m₂, hm, -, hrest⟩ := h m₁ l.position hm₁
    obtain ⟨l₂, hr, sim'⟩ := (Correspondence.exact_ofReader l.filename).eq_of_agree
      (sim.readDollar l.position) (fun _ _ => expanded_same) hm
    refine ⟨l₂, ?_, sim'.input.unread.trans hrest⟩
    unfold wordStep wordRune
    simp only [hn, role_dollar hdollar, hr, hplace, hfilename]
    cases answer l.location <;> rfl
  doubleQuotes opening g l steady hl := by
    obtain ⟨l₁, m₁, hn, sim, -, hplace, hm₁⟩ := nextRune_onStream (c := '$') steady hl
    obtain ⟨m₂, -, hm, hrest⟩ := h m₁ l.position hm₁
    obtain ⟨l₂, hr, sim'⟩ := (Correspondence.exact_ofReader l.filename).eq_of_agree
      (sim.readInnerDollar l.position) (fun _ _ => expanded_same) hm
    refine ⟨l₂, ?_, sim'.input.unread.trans hrest⟩
    unfold doubleQuoteStep
    simp only [hn, hr, hplace]
    cases answer l.location <;> rfl

end Lexer

section

open Lexer

variable {name rest : List Char}

/-- A name without braces may be given braces. -/
theorem Unbraced.readable (h : Unbraced name rest) :
    (Element.reference { name := String.ofList name }).Readable := by
  cases h with
  | special special => exact readable_special special
  | identifier start all _ => exact readable_identifier start all

/-- A name that needs no braces is introduced as it stands. -/
theorem Unbraced.introduces (h : Unbraced name rest) :
    Introduces name rest fun _ => .ok { name := String.ofList name } := by
  cases h with
  | special special => exact introduces_special special
  | identifier start all stops => exact introduces_identifier start all stops

/-- The source of a braced expansion. -/
def braced (body : List Char) : List Char := '$' :: '{' :: body ++ ['}']

/-- A name means the same between braces as without them. -/
theorem Unbraced.expands_braced (h : Unbraced name rest) (behind : List Char) :
    Expands (braced name) behind fun _ => .ok { name := String.ofList name } := by
  obtain ⟨hencloses, hbody⟩ := h.readable
  have hname : VariableRef.body { name := String.ofList name } = String.ofList name := by
    simp [VariableRef.body]
  have hexpands := (introduces_braced hencloses behind).expands
  rwa [funext hbody, hname, String.toList_ofList] at hexpands

/-- Parameters are read as what they mean. A name without braces is a reference to it and leaves what follows, and
so is the same name between braces. What is enclosed by braces means a reference or an error, which is what it
is read as. -/
theorem parameters_expand :
    (∀ {name rest : List Char}, Unbraced name rest →
      Expands ('$' :: name) rest (fun _ => .ok { name := String.ofList name }) ∧
        ∀ behind, Expands (braced name) behind fun _ => .ok { name := String.ofList name }) ∧
      ∀ body : String, Brackets.braces.Encloses body.toList →
        (∀ rest, Expands (braced body.toList) rest (VariableRef.ofBody body)) ∧
          ∀ p r, Means body p r ↔ VariableRef.ofBody body p = r :=
  ⟨fun h => ⟨h.introduces.expands, h.expands_braced⟩, fun _ hbody =>
    ⟨fun rest => (introduces_braced hbody rest).expands, fun _ _ => Means.iff_ofBody⟩⟩

/-- A name before a character that is no part of it, and a body with braces of its own. -/
theorem parameters_expand_default :
    Unbraced ['a'] ['.'] ∧ Expands ['$', 'a'] ['.'] (fun _ => .ok { name := "a" }) ∧
      Brackets.braces.Encloses "a:-\x7b\x7d".toList ∧
      ∀ p, Means "a:-\x7b\x7d" p (.ok { name := "a", modifier := some ":-\x7b\x7d" }) := by
  have hname : Unbraced ['a'] ['.'] := .identifier (by decide) nofun (by simp [isNameChar])
  have hbody : Brackets.braces.Encloses "a:-\x7b\x7d".toList := ⟨{}, rfl, rfl⟩
  exact ⟨hname, (parameters_expand.1 hname).1, hbody,
    fun p => ((parameters_expand.2 _ hbody).2 p _).mpr rfl⟩

end

end ShellScript
