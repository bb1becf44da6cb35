/-!
# Plain text

What a text looks like on a stream that is no terminal: without the escape sequences that steer one,
and without the control characters that are no blanks. A sequence ends where a terminal would end it, so
an unfinished one takes the characters after it along. A blank control within a sequence is shown and
puts the sequence off until the next character that is not shown.
-/

namespace ShellScript.Cli.PlainText

/-- Where in an escape sequence a character stands. -/
inductive Place
  /-- In no sequence. -/
  | text
  /-- After the character that starts one. -/
  | escape
  /-- In a sequence of a few characters, which a letter or a digit ends. -/
  | designation
  /-- In a control sequence, which a letter ends. -/
  | control
  /-- In a command to the system, which a bell ends. -/
  | command
  /-- Where a string for a device starts. -/
  | device
  /-- Among the numbers before a string for a device. -/
  | deviceNumbers
  /-- After the numbers before a string for a device. -/
  | deviceMarks
  /-- In a string for the terminal, which a terminator ends. -/
  | string
  deriving DecidableEq, Repr

/-- A control character that is no blank. -/
def isUnseen (c : Char) : Bool :=
  (c.toNat < 0x20 && c != '\t' && c != '\n' && c != '\x0c' && c != '\r') || c.toNat = 0x7F

/-- A control character that is a blank. -/
def isBlankControl (c : Char) : Bool :=
  c = '\t' || c = '\n' || c = '\x0c' || c = '\r'

/-- Whether a character holds the byte that ends a string. -/
def endsString (c : Char) : Bool :=
  (String.utf8EncodeChar c).contains 0x9C

namespace Place

/-- A character between the blank and the digits. -/
def isMark (c : Char) : Bool := 0x20 ≤ c.toNat && c.toNat ≤ 0x2F

/-- A character of a number or between two. -/
def isNumeric (c : Char) : Bool := ('0' ≤ c && c ≤ '9') || c = ';'

/-- A character from the digits on, a control excepted. -/
def isFinal (c : Char) : Bool := 0x30 ≤ c.toNat && c.toNat ≤ 0x7E

/-- A letter, or a character that stands between or after them in the code. -/
def isLetter (c : Char) : Bool := 0x40 ≤ c.toNat && c.toNat ≤ 0x7E

/-- The place after a character that is not shown. A cancel and a substitute end every sequence. -/
def next (p : Place) (c : Char) : Place :=
  if c = '\x1b' then escape
  else if c = '\x18' || c = '\x1a' then text
  else match p with
    | text => text
    | escape =>
      if c = '[' then control
      else if c = ']' then command
      else if c = 'P' then device
      else if c = 'X' || c = '^' || c = '_' then string
      else if isMark c then designation
      else if isFinal c then text
      else escape
    | designation => if isFinal c then text else designation
    | control => if isLetter c then text else control
    | command => if c = '\x07' then text else command
    | device =>
      if isMark c then deviceMarks
      else if c = ':' || isLetter c then string
      else if isFinal c then deviceNumbers
      else device
    | deviceNumbers =>
      if isMark c then deviceMarks
      else if isFinal c && !isNumeric c then string
      else deviceNumbers
    | deviceMarks => if isFinal c then string else deviceMarks
    | string => if endsString c then text else string

/-- Whether a blank control is shown here. -/
def showsBlanks : Place → Bool
  | text | escape | designation | control => true
  | command | device | deviceNumbers | deviceMarks | string => false

end Place

/-- How far a text has been followed. -/
structure Progress where
  place : Place := .text
  /-- Whether text is shown for now, whatever the place. -/
  isOff : Bool := false
  deriving DecidableEq, Repr

namespace Progress

/-- Whether the next character is shown. -/
def shows (p : Progress) (c : Char) : Bool :=
  if p.isOff || p.place = .text then !isUnseen c else isBlankControl c && p.place.showsBlanks

/-- The progress after a character. One beyond the first 128 that is shown ends a sequence that had been
put off. -/
def next (p : Progress) (c : Char) : Progress :=
  if p.shows c then { place := if c.toNat < 0x80 then p.place else .text, isOff := true }
  else { place := p.place.next c, isOff := false }

end Progress

/-- The characters that are shown from some progress on. -/
def shown : Progress → List Char → List Char
  | _, [] => []
  | p, c :: rest => if p.shows c then c :: shown (p.next c) rest else shown (p.next c) rest

/-- No blank control is unseen. -/
theorem isUnseen_of_isBlankControl {c : Char} (h : isBlankControl c = true) : isUnseen c = false := by
  simp only [isBlankControl, Bool.or_eq_true, decide_eq_true_eq] at h
  rcases h with ((rfl | rfl) | rfl) | rfl <;> decide

/-- What is shown is not unseen. -/
theorem isUnseen_of_shows {p : Progress} {c : Char} (h : p.shows c = true) : isUnseen c = false := by
  unfold Progress.shows at h
  split at h
  · simpa using h
  · exact isUnseen_of_isBlankControl (Bool.and_eq_true_iff.mp h).1

/-- Nothing that is shown is unseen. -/
theorem isUnseen_of_mem_shown {p : Progress} {chars : List Char} {c : Char} (h : c ∈ shown p chars) :
    isUnseen c = false := by
  induction chars generalizing p with
  | nil => simp [shown] at h
  | cons d rest ih =>
    unfold shown at h
    split at h
    · rename_i hd
      rcases List.mem_cons.mp h with rfl | h
      · exact isUnseen_of_shows hd
      · exact ih h
    · exact ih h

end PlainText

/-- A text without escape sequences and unseen characters. -/
def plainText (text : String) : String :=
  String.ofList (PlainText.shown {} text.toList)

end ShellScript.Cli
