import ShellScript.ParseError
import ShellScript.Separator

/-!
# Escape sets

An escape set holds the ASCII characters that end a command. It is kept as a word of 128 bits, one for
each ASCII character; `contains_insert` says that the word is a set.
-/

namespace ShellScript

/-- A set of ASCII characters. -/
structure EscapeSet where
  bits : BitVec 128
  deriving DecidableEq, Repr

namespace EscapeSet

/-- The set without members. -/
def empty : EscapeSet := ⟨0#128⟩

/-- Whether a character is in the set. No character outside ASCII is. -/
def contains (set : EscapeSet) (c : Char) : Bool :=
  set.bits.getLsbD c.toNat

/-- The set with one more member. A character outside ASCII is not taken in. -/
def insert (set : EscapeSet) (c : Char) : EscapeSet :=
  ⟨set.bits ||| BitVec.twoPow 128 c.toNat⟩

/-- The set of all characters of a list that are ASCII. -/
def ofChars (chars : List Char) : EscapeSet :=
  chars.foldl insert empty

/-- The semicolon and the newline. -/
def default : EscapeSet := ofChars [';', '\n']

instance : Inhabited EscapeSet := ⟨default⟩

/-- The set that a specification asks for. It must be ASCII. -/
def ofSpec (spec : String) : Except ParseError EscapeSet :=
  if spec.toList.all (·.toNat < 128) then .ok (ofChars spec.toList)
  else .error (.invalidEscapeSpecification spec)

/-- The members in the order of their codes. -/
def members (set : EscapeSet) : List Char :=
  ((List.range 128).map Char.ofNat).filter set.contains

/-- The separator that a member stands for. -/
def separator? (set : EscapeSet) (c : Char) : Option Separator :=
  if set.contains c then some ((Separator.fixed? c).getD (.other c)) else none

/-- Inserting adds one character and no other. -/
theorem contains_insert (set : EscapeSet) (c d : Char) :
    (set.insert c).contains d = (set.contains d || (decide (c.toNat < 128) && decide (d = c))) := by
  have hcd : d = c ↔ c.toNat = d.toNat := by
    constructor
    · rintro rfl; rfl
    · intro h; exact (Char.toNat_inj.mp h).symm
  simp only [contains, insert, BitVec.getLsbD_or, BitVec.getLsbD_twoPow]
  by_cases h : c.toNat = d.toNat <;> simp [hcd, h]

/-- Unless told otherwise, semicolons and newlines separate. -/
theorem contains_default (c : Char) : default.contains c = (decide (c = ';') || decide (c = '\n')) := by
  have hempty : empty.contains c = false := by simp [contains, empty]
  simp [default, ofChars, contains_insert, hempty]

end EscapeSet

end ShellScript
