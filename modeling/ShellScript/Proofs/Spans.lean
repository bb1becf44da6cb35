import ShellScript.Lexer.Quotes
import ShellScript.Proofs.Positions
import ShellScript.Token

/-!
# Where elements come from

Literals and substitutions remember their origin. `Spans` says of elements that their origins lie between
two offsets of a text and ascend, and that the substitutions stand in the text where their origins are;
`Gathers` says it of a word in the making.
-/

namespace ShellScript

/-- Where an element comes from, if it remembers it. -/
def Element.origin? : Element → Option Location
  | .literal l => some l.origin
  | .substitution s => some s.origin
  | .reference _ | .separator _ => none

/-- The origins of some elements in order. -/
def origins (es : List Element) : List Location := es.filterMap Element.origin?

@[simp] theorem origins_nil : origins [] = [] := rfl

/-- The origins of elements come in the order of the elements. -/
@[simp] theorem origins_append (es fs : List Element) : origins (es ++ fs) = origins es ++ origins fs :=
  List.filterMap_append

/-- Whether a position is one between two characters of a text. -/
def Position.Within (text : List Char) (p : Position) : Prop :=
  ∃ u v, text = u ++ v ∧ p = .behind u

/-- Whether a location is between two characters of the text with this label. -/
structure Placed (label : String) (text : List Char) (l : Location) : Prop where
  filename : l.filename = label
  position : l.position.Within text

/-- Whether a substitution stands in a text where its origin says: the dollar sign, and its source between
parentheses. -/
def CommandSubstitution.StandsIn (label : String) (text : List Char) (s : CommandSubstitution) : Prop :=
  ∃ u v, text = u ++ '$' :: '(' :: (s.source.toList ++ ')' :: v) ∧ s.origin = ⟨label, .behind u⟩

/-- Elements that come from between two offsets of a text, each from further on than the one before. -/
structure Spans (label : String) (text : List Char) (lo hi : Nat) (es : List Element) : Prop where
  le : lo ≤ hi
  placed : ∀ l ∈ origins es, Placed label text l
  range : ∀ l ∈ origins es, lo ≤ l.position.offset ∧ l.position.offset < hi
  ascending : (origins es).Pairwise fun l l' => l.position.offset < l'.position.offset
  substitutions : ∀ s, .substitution s ∈ es → s.StandsIn label text

section

variable {label : String} {text : List Char} {lo mid hi : Nat} {es fs : List Element}

namespace Spans

/-- Elements without origins span any part. -/
theorem of_origins_nil (h : lo ≤ hi) (hes : origins es = []) : Spans label text lo hi es := by
  refine ⟨h, by simp [hes], by simp [hes], by simp [hes], fun s hs => ?_⟩
  have horigin : s.origin ∈ origins es := List.mem_filterMap.mpr ⟨_, hs, rfl⟩
  rw [hes] at horigin
  cases horigin

/-- No elements span any part. -/
theorem nil (h : lo ≤ hi) : Spans label text lo hi [] := .of_origins_nil h rfl

/-- An element spans the part that its origin lies in. -/
theorem singleton {e : Element} {p : Position} (he : e.origin? = some ⟨label, p⟩)
    (hp : p.Within text) (hlo : lo ≤ p.offset) (hhi : p.offset < hi)
    (hs : ∀ s, e = .substitution s → s.StandsIn label text) : Spans label text lo hi [e] := by
  have horigins : origins [e] = [⟨label, p⟩] := by simp [origins, he]
  refine ⟨by omega, ?_, ?_, ?_, fun s h => hs s (List.mem_singleton.mp h).symm⟩ <;> rw [horigins]
  · simpa using ⟨rfl, hp⟩
  · simpa using ⟨hlo, hhi⟩
  · exact List.pairwise_singleton _ _

/-- A literal does, as it has no other place. -/
theorem literal {t : Literal} {p : Position} (ht : t.origin = ⟨label, p⟩) (hp : p.Within text)
    (hlo : lo ≤ p.offset) (hhi : p.offset < hi) : Spans label text lo hi [.literal t] :=
  .singleton (congrArg some ht) hp hlo hhi nofun

/-- A substitution does, if it stands where its origin says. -/
theorem substitution {s : CommandSubstitution} {p : Position} (hs : s.StandsIn label text)
    (hp : s.origin = ⟨label, p⟩) (hlo : lo ≤ p.offset) (hhi : p.offset < hi) :
    Spans label text lo hi [.substitution s] := by
  obtain ⟨u, v, htext, horigin⟩ := hs
  have hwithin : p.Within text := ⟨u, _, htext, congrArg Location.position (hp.symm.trans horigin)⟩
  refine .singleton (congrArg some hp) hwithin hlo hhi fun s' hs' => ?_
  cases hs'
  exact ⟨u, v, htext, horigin⟩

/-- Elements from one part and from the next span both. -/
theorem append (h : Spans label text lo mid es) (h' : Spans label text mid hi fs) :
    Spans label text lo hi (es ++ fs) where
  le := Nat.le_trans h.le h'.le
  placed l hl := by
    rw [origins_append, List.mem_append] at hl
    exact hl.elim (h.placed l) (h'.placed l)
  range l hl := by
    have hle := h.le
    have hle' := h'.le
    rw [origins_append, List.mem_append] at hl
    rcases hl with hl | hl
    · have := h.range l hl
      omega
    · have := h'.range l hl
      omega
  ascending := by
    rw [origins_append, List.pairwise_append]
    refine ⟨h.ascending, h'.ascending, fun l hl l' hl' => ?_⟩
    have := h.range l hl
    have := h'.range l' hl'
    omega
  substitutions s hs := by
    rw [List.mem_append] at hs
    exact hs.elim (h.substitutions s) (h'.substitutions s)

/-- A part may be taken to end later. -/
theorem mono (h : Spans label text lo mid es) (hle : mid ≤ hi) : Spans label text lo hi es := by
  have := h.append (.nil hle)
  rwa [List.append_nil] at this

/-- Leaving elements out leaves the others in their order. -/
theorem sublist (h : Spans label text lo hi fs) (hes : es.Sublist fs) : Spans label text lo hi es where
  le := h.le
  placed l hl := h.placed l ((hes.filterMap _).subset hl)
  range l hl := h.range l ((hes.filterMap _).subset hl)
  ascending := h.ascending.sublist (hes.filterMap _)
  substitutions s hs := h.substitutions s (hes.subset hs)

/-- What closing quotes make of elements that span the inside. -/
theorem closeQuotes {opening : Position} (h : Spans label text opening.offset mid es)
    (ho : opening.Within text) (hle : mid ≤ hi) (hlt : opening.offset < hi) :
    Spans label text opening.offset hi (Lexer.closeQuotes ⟨label, opening⟩ es) := by
  cases es with
  | nil => exact .literal rfl ho (Nat.le_refl _) hlt
  | cons e es => exact h.mono hle

end Spans

/-- A word in the making whose elements span a part of the text, with the text after them. -/
structure Gathers (label : String) (text : List Char) (lo hi : Nat) (g : Gathering) : Prop where
  elements : ∃ mid, Spans label text lo mid g.elements ∧ mid ≤ hi ∧
    ∀ p, g.draft.origin = some p → p.Within text ∧ mid ≤ p.offset ∧ p.offset < hi
  text : g.draft.text.isEmpty = false → g.draft.origin.isSome

namespace Gathers

variable {g : Gathering}

/-- What was gathered lies between offsets in their order. -/
theorem le (h : Gathers label text lo hi g) : lo ≤ hi := by
  obtain ⟨mid, hspans, hmid, -⟩ := h.elements
  exact Nat.le_trans hspans.le hmid

/-- Complete elements are gathered where they span. -/
theorem ofElements (h : Spans label text lo hi es) : Gathers label text lo hi { elements := es } :=
  ⟨⟨hi, h, Nat.le_refl _, by simp⟩, by simp⟩

/-- Nothing is gathered anywhere. -/
theorem empty (h : lo ≤ hi) : Gathers label text lo hi {} := ofElements (.nil h)

/-- When the text of a word is over, its elements span what was gathered. -/
theorem settle (h : Gathers label text lo hi g) : Spans label text lo hi (g.settle label) := by
  obtain ⟨mid, hspans, hmid, horigin⟩ := h.elements
  unfold Gathering.settle
  split
  · exact hspans.mono hmid
  · rename_i htext
    obtain ⟨p, hp⟩ := Option.isSome_iff_exists.mp (h.text (by simpa using htext))
    obtain ⟨hwithin, hlo, hhi⟩ := horigin p hp
    rw [hp]
    exact hspans.append (.literal rfl hwithin hlo hhi)

/-- A character from further on. -/
theorem push {p : Position} (h : Gathers label text lo mid g) (hp : p.Within text)
    (hlo : mid ≤ p.offset) (hhi : p.offset < hi) (c : Char) : Gathers label text lo hi (g.push c p) := by
  obtain ⟨mid', hspans, hmid, horigin⟩ := h.elements
  refine ⟨⟨mid', hspans, by omega, fun q hq => ?_⟩, fun _ => rfl⟩
  simp only [Gathering.push, Draft.push, Option.some.injEq] at hq
  cases ho : g.draft.origin with
  | none =>
    rw [ho] at hq
    cases hq
    exact ⟨hp, Nat.le_trans hmid hlo, hhi⟩
  | some q' =>
    rw [ho] at hq
    cases hq
    obtain ⟨hwithin, hlo', hhi'⟩ := horigin q' ho
    exact ⟨hwithin, hlo', Nat.lt_trans hhi' (Nat.lt_of_le_of_lt hlo hhi)⟩

/-- Another character of text that has begun. -/
theorem push_again {p : Position} (h : Gathers label text lo hi g) (ho : g.draft.origin.isSome)
    (c : Char) : Gathers label text lo hi (g.push c p) := by
  obtain ⟨mid, hspans, hmid, horigin⟩ := h.elements
  obtain ⟨q, hq⟩ := Option.isSome_iff_exists.mp ho
  refine ⟨⟨mid, hspans, hmid, fun q' hq' => ?_⟩, fun _ => rfl⟩
  rw [Gathering.push, Draft.push, hq] at hq'
  cases hq'
  exact horigin q hq

/-- What was gathered may be taken to end later. -/
theorem mono (h : Gathers label text lo mid g) (hle : mid ≤ hi) : Gathers label text lo hi g := by
  obtain ⟨mid', hspans, hmid, horigin⟩ := h.elements
  refine ⟨⟨mid', hspans, by omega, fun p hp => ?_⟩, h.text⟩
  obtain ⟨hwithin, hlo, hhi⟩ := horigin p hp
  exact ⟨hwithin, hlo, by omega⟩

/-- A backslash and what it protects come from the backslash on. -/
theorem protect {p : Position} (h : Gathers label text lo mid g) (hp : p.Within text)
    (hlo : mid ≤ p.offset) (hhi : p.offset < hi) (c : Char) :
    Gathers label text lo hi (Lexer.protect g c p) := by
  unfold Lexer.protect
  split
  · exact h.push hp hlo hhi c
  split
  · exact h.mono (by omega)
  · exact (h.push hp hlo hhi '\\').push_again rfl c

end Gathers

end

end ShellScript
