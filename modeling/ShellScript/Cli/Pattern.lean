import ShellScript.Text.Alphanumeric

/-!
# Patterns

Regular expressions that describe whole texts. `Pattern.heads` says how a match of a pattern can begin,
the preferred ways first, and `Pattern.describes` follows them through a text. A way that has come to its
end cuts off those that were less preferred, so `a|ab` describes `a` and not `ab`. `Pattern.parse?` reads
the usual notation, without repetition counts, flags, word boundaries, classes within classes and classes
by Unicode property.
-/

namespace ShellScript.Cli

/-! ## Classes of characters -/

/-- Characters of one sort. -/
inductive CharSort
  | between (low high : Char)
  | digit
  | word
  | blank
  deriving DecidableEq, Repr

/-- Whether a character is of the sort. -/
def CharSort.contains (s : CharSort) (c : Char) : Bool :=
  match s with
  | between low high => low ≤ c && c ≤ high
  | digit => c.isDigit
  | word => Text.isAlphanumeric c || Text.isExtending c || c = '_'
  | blank => Text.isBlank c

/-- The characters of some sorts and those that are not of others, or all the rest. -/
structure CharClass where
  inside : List CharSort := []
  outside : List CharSort := []
  isComplement : Bool := false
  deriving DecidableEq, Repr

namespace CharClass

/-- Whether a character belongs to the class. -/
def contains (k : CharClass) (c : Char) : Bool :=
  (k.inside.any (·.contains c) || k.outside.any (!·.contains c)) != k.isComplement

/-- The class of one character. -/
def single (c : Char) : CharClass := { inside := [.between c c] }

/-- The characters of two classes, of which neither is a complement. -/
def union (k l : CharClass) : CharClass :=
  { inside := k.inside ++ l.inside, outside := k.outside ++ l.outside }

/-- All but the end of a line. -/
def inLine : CharClass := { inside := [.between '\n' '\n'], isComplement := true }

end CharClass

/-! ## Patterns and their matches -/

/-- A regular expression. -/
inductive Pattern
  | empty
  /-- Nothing, where the text starts. -/
  | start
  /-- Nothing, where the text ends. -/
  | finish
  | one (members : CharClass)
  | seq (first second : Pattern)
  /-- One of two, the first by preference. -/
  | either (first second : Pattern)
  /-- Any number in a row, by preference as many or as few as there can be. -/
  | many (repeated : Pattern) (isGreedy : Bool)
  deriving DecidableEq, Repr

/-- How a match begins. -/
inductive Head
  /-- With its end. -/
  | done
  /-- With its end, if the text ends here. -/
  | finish
  /-- With a character of a class, and then a match of another pattern. -/
  | read (members : CharClass) (rest : Pattern)
  deriving DecidableEq, Repr

/-- Whether a match that begins so may end where the text does. -/
def Head.isEnd : Head → Bool
  | done | finish => true
  | read _ _ => false

namespace Pattern

/-- A pattern and then another one. -/
def followedBy : Pattern → Pattern → Pattern
  | empty, q => q
  | p, q => seq p q

/-- At most one match, by preference one or none. -/
def optional (p : Pattern) (isGreedy : Bool) : Pattern :=
  if isGreedy then either p empty else either empty p

/-- How a match begins, the preferred ways first, at the start of the text or further on. -/
def heads (atStart : Bool) : Pattern → List Head
  | empty => [.done]
  | start => if atStart then [.done] else []
  | finish => [.finish]
  | one members => [.read members empty]
  | seq p q =>
    (p.heads atStart).flatMap fun
      | .done => q.heads atStart
      | .finish => if (q.heads atStart).any Head.isEnd then [.finish] else []
      | .read members rest => [.read members (rest.followedBy q)]
  | either p q => p.heads atStart ++ q.heads atStart
  | many p isGreedy =>
    let again := (p.heads atStart).map fun
      | .read members rest => .read members (rest.followedBy (many p isGreedy))
      | ending => ending
    if isGreedy then again ++ [.done] else .done :: again

/-- The ways that are followed on: each once, and none that is less preferred than an end. -/
def preferred (ways : List Head) : List Head :=
  let ways := ways.eraseDups
  let unended := ways.takeWhile (· ≠ .done)
  unended ++ (ways.drop unended.length).take 1

/-- The ways on after a character. -/
def advance (ways : List Head) (c : Char) : List Head :=
  preferred <| ways.flatMap fun
    | .read members rest => if members.contains c then rest.heads false else []
    | _ => []

/-- Whether the pattern describes a whole text. -/
def describes (p : Pattern) (text : String) : Bool :=
  (text.toList.foldl advance (preferred (p.heads true))).any Head.isEnd

/-! ## Reading patterns -/

/-- How often the pattern before it is repeated. -/
inductive Times
  | optional
  | some
  | any
  deriving DecidableEq, Repr

/-- A piece of a written pattern. -/
inductive Piece
  | atom (p : Pattern)
  | opening
  | closing
  | bar
  | times (count : Times) (isGreedy : Bool)
  deriving DecidableEq, Repr

/-- The value of a hexadecimal digit. -/
def hexDigit? (c : Char) : Option Nat :=
  if '0' ≤ c && c ≤ '9' then some (c.toNat - 48)
  else if 'a' ≤ c && c ≤ 'f' then some (c.toNat - 87)
  else if 'A' ≤ c && c ≤ 'F' then some (c.toNat - 55)
  else none

/-- The character that a number of hexadecimal digits stand for, and the text after them. -/
def codedChar? (count : Nat) (chars : List Char) : Option (Char × List Char) := do
  let digits ← (chars.take count).mapM hexDigit?
  let code := digits.foldl (fun value digit => value * 16 + digit) 0
  if digits.length = count && code.isValidChar then return (Char.ofNat code, chars.drop count) else none

/-- The class that the text after a backslash stands for, and the text after that. -/
def escapedClass? : List Char → Option (CharClass × List Char)
  | [] => none
  | 'd' :: rest => some ({ inside := [.digit] }, rest)
  | 'D' :: rest => some ({ outside := [.digit] }, rest)
  | 'w' :: rest => some ({ inside := [.word] }, rest)
  | 'W' :: rest => some ({ outside := [.word] }, rest)
  | 's' :: rest => some ({ inside := [.blank] }, rest)
  | 'S' :: rest => some ({ outside := [.blank] }, rest)
  | c :: rest => do
    let (c, rest) ← match c with
      | 'a' => some ('\x07', rest)
      | 'f' => some ('\x0c', rest)
      | 'n' => some ('\n', rest)
      | 'r' => some ('\r', rest)
      | 't' => some ('\t', rest)
      | 'v' => some ('\x0b', rest)
      | 'x' => codedChar? 2 rest
      | 'u' => codedChar? 4 rest
      | 'U' => codedChar? 8 rest
      | c => if c.toNat < 0x80 && !c.isAlphanum && c ≠ '<' && c ≠ '>' then some (c, rest) else none
    return (.single c, rest)

/-- The character that is the only member of a class. -/
def onlyMember? (k : CharClass) : Option Char :=
  match k with
  | ⟨[.between low high], [], false⟩ => if low = high then some low else none
  | _ => none

/-- Reads one member between brackets. -/
def member? : List Char → Option (CharClass × List Char)
  | [] => none
  | '\\' :: rest => escapedClass? rest
  | c :: rest => some (.single c, rest)

/-- Reads members up to the closing bracket. -/
def members? : Nat → List Char → Option (CharClass × List Char)
  | 0, _ => none
  | fuel + 1, chars => do
    match chars with
    | ']' :: rest => return ({}, rest)
    | '[' :: _ | '&' :: '&' :: _ | '-' :: '-' :: _ | '~' :: '~' :: _ => none
    | _ =>
      let (k, rest) ← member? chars
      let (k, rest) ← match rest with
        | '-' :: ']' :: _ | '-' :: '-' :: _ => some (k, rest)
        | '-' :: second => do
          let (l, rest) ← member? second
          let low ← onlyMember? k
          let high ← onlyMember? l
          if low ≤ high then some ({ inside := [.between low high] }, rest) else none
        | _ => some (k, rest)
      let (others, rest) ← members? fuel rest
      return (k.union others, rest)

/-- Reads a class after its opening bracket. Dashes and a bracket that come first are members. -/
def bracketed? (chars : List Char) : Option (CharClass × List Char) := do
  let isComplement := chars.head? = some '^'
  let chars := if isComplement then chars.drop 1 else chars
  let dashes := chars.takeWhile (· = '-')
  let chars := chars.drop dashes.length
  let (first, chars) := match dashes, chars with
    | [], ']' :: rest => (CharClass.single ']', rest)
    | [], _ => ({}, chars)
    | _, _ => (.single '-', chars)
  let (k, rest) ← members? (chars.length + 1) chars
  return ({ first.union k with isComplement }, rest)

/-- Reads the next piece. -/
def piece? : List Char → Option (Piece × List Char)
  | [] => none
  | '(' :: '?' :: ':' :: rest => some (.opening, rest)
  | '(' :: '?' :: _ => none
  | '(' :: rest => some (.opening, rest)
  | ')' :: rest => some (.closing, rest)
  | '|' :: rest => some (.bar, rest)
  | '?' :: '?' :: rest => some (.times .optional false, rest)
  | '?' :: rest => some (.times .optional true, rest)
  | '+' :: '?' :: rest => some (.times .some false, rest)
  | '+' :: rest => some (.times .some true, rest)
  | '*' :: '?' :: rest => some (.times .any false, rest)
  | '*' :: rest => some (.times .any true, rest)
  | '\x7b' :: _ => none
  | '^' :: rest | '\\' :: 'A' :: rest => some (.atom start, rest)
  | '$' :: rest | '\\' :: 'z' :: rest => some (.atom finish, rest)
  | '.' :: rest => some (.atom (one .inLine), rest)
  | '\\' :: rest => (escapedClass? rest).map fun (k, rest) => (.atom (one k), rest)
  | '[' :: rest => (bracketed? rest).map fun (k, rest) => (.atom (one k), rest)
  | c :: rest => some (.atom (one (.single c)), rest)

/-- Reads all pieces. -/
def pieces? : Nat → List Char → Option (List Piece)
  | _, [] => some []
  | 0, _ => none
  | fuel + 1, chars => do
    let (piece, rest) ← piece? chars
    return piece :: (← pieces? fuel rest)

/-- A group that is being read. -/
structure Group where
  /-- The alternatives before the last bar, the last first. -/
  branches : List Pattern := []
  /-- What stands after the last bar, the last first. -/
  items : List Pattern := []

namespace Group

/-- What stands after the last bar. -/
def branch (g : Group) : Pattern := g.items.foldl (fun rest p => followedBy p rest) empty

/-- The pattern of the group. -/
def pattern (g : Group) : Pattern := g.branches.foldl (fun rest p => either p rest) g.branch

/-- The group with one more item. -/
def add (g : Group) (p : Pattern) : Group := { g with items := p :: g.items }

end Group

/-- A pattern that is repeated. -/
def repeated (p : Pattern) (count : Times) (isGreedy : Bool) : Pattern :=
  match count with
  | .optional => p.optional isGreedy
  | .some => p.followedBy (many p isGreedy)
  | .any => many p isGreedy

/-- Puts pieces together, within an inner group and the groups around it. -/
def assemble? (g : Group) (outer : List Group) : List Piece → Option Pattern
  | [] => if outer.isEmpty then some g.pattern else none
  | .atom p :: rest => assemble? (g.add p) outer rest
  | .bar :: rest => assemble? { branches := g.branch :: g.branches } outer rest
  | .opening :: rest => assemble? {} (g :: outer) rest
  | .closing :: rest =>
    match outer with
    | [] => none
    | around :: outer => assemble? (around.add g.pattern) outer rest
  | .times count isGreedy :: rest =>
    match g.items with
    | [] => none
    | p :: items => assemble? { g with items := repeated p count isGreedy :: items } outer rest

/-- The pattern that a text writes. -/
def parse? (text : String) : Option Pattern := do
  let chars := text.toList
  assemble? {} [] (← pieces? chars.length chars)

end Pattern

end ShellScript.Cli
