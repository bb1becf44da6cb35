import ShellScript.Cli.Pattern
import ShellScript.Trace

/-!
# Log filters

Which events a log shows. A filter is a list of directives with commas between them, such as
`warn,gsh_shell::parser=debug`. A directive about a part of the program decides how detailed the log of
that part is, and of several the one that says more about the part does. A directive about a span, such
as `[command]=debug`, shows more while the span is open.
-/

namespace ShellScript.Cli

/-- How detailed a log is: the most detailed level that it shows, if it shows any. -/
abbrev Threshold := Option Level

namespace Threshold

/-- Whether records of a level are shown. -/
def admits (t : Threshold) (level : Level) : Bool :=
  match t with
  | none => false
  | some least => least.rank ≤ level.rank

/-- The threshold that a number stands for: a greater one shows more. -/
def ofNat? : Nat → Option Threshold
  | 0 => some none
  | 1 => some (some .error)
  | 2 => some (some .warn)
  | 3 => some (some .info)
  | 4 => some (some .debug)
  | 5 => some (some .trace)
  | _ => none

/-- The number that digits write. A plus sign may stand before them. -/
def number? (chars : List Char) : Option Nat :=
  let digits := if chars.head? = some '+' then chars.drop 1 else chars
  if digits.isEmpty || !digits.all Char.isDigit then none
  else some (digits.foldl (fun value c => value * 10 + (c.toNat - 48)) 0)

/-- The threshold with a name, or a number. Case does not matter. -/
def parse? (chars : List Char) : Option Threshold :=
  match number? chars with
  | some n => ofNat? n
  | none =>
    match String.ofList (chars.map Char.toLower) with
    | "off" => some none
    | "error" => some (some .error)
    | "warn" => some (some .warn)
    | "info" => some (some .info)
    | "debug" => some (some .debug)
    | "trace" => some (some .trace)
    | _ => none

end Threshold

/-- What the value of a field is to be like. -/
inductive ValuePattern
  /-- A truth value or a number, as it is written. No text is one. -/
  | constant (written : String)
  | text (pattern : Pattern)
  deriving DecidableEq, Repr

namespace ValuePattern

/-- Whether digits with or without a point write a number. -/
def isDecimal (chars : List Char) : Bool :=
  let whole := chars.takeWhile Char.isDigit
  match chars.drop whole.length with
  | [] => !whole.isEmpty
  | '.' :: fraction => fraction.all Char.isDigit && !(whole.isEmpty && fraction.isEmpty)
  | _ => false

/-- The text without a sign before it. -/
def unsigned (chars : List Char) : List Char :=
  if chars.head? = some '+' || chars.head? = some '-' then chars.drop 1 else chars

/-- Whether a text writes a truth value or a number. -/
def isConstant (text : String) : Bool :=
  let chars := unsigned text.toList
  let mantissa := chars.takeWhile fun c => c ≠ 'e' && c ≠ 'E'
  let exponent := unsigned ((chars.drop mantissa.length).drop 1)
  ["true", "false"].contains text ||
    ["inf", "infinity", "nan"].contains (String.ofList (chars.map Char.toLower)) ||
    isDecimal mantissa &&
      (mantissa.length = chars.length || !exponent.isEmpty && exponent.all Char.isDigit)

/-- The pattern that a text writes. -/
def parse? (text : String) : Option ValuePattern :=
  if isConstant text then some (.constant text) else (Pattern.parse? text).map .text

/-- Whether a text is as described. -/
def describes (v : ValuePattern) (value : String) : Bool :=
  match v with
  | constant _ => false
  | text pattern => pattern.describes value

end ValuePattern

/-- A condition on the data of a span or an event: a name that must be there, and what its value is to be
like, if that matters. -/
structure FieldPattern where
  name : String
  value : Option ValuePattern := none
  deriving DecidableEq, Repr

/-- A directive of a log filter. -/
structure Directive where
  /-- How the name of the part of the program begins. -/
  target : String := ""
  /-- The span that the directive is about, if it is about one. -/
  span : Option String := none
  fields : List FieldPattern := []
  threshold : Threshold := some .trace
  deriving DecidableEq, Repr

namespace Directive

/-- Whether two directives are about the same. -/
def sameScope (d e : Directive) : Bool :=
  d.target == e.target && d.span == e.span && d.fields == e.fields

/-- Whether a directive counts while certain spans are open. -/
def isDynamic (d : Directive) : Bool :=
  d.span.isSome || !d.fields.isEmpty

/-- Whether a directive counts no matter which spans are open. -/
def isStatic (d : Directive) : Bool :=
  d.span.isNone && d.fields.all (·.value.isNone)

/-- Whether a directive is about spans like this one. -/
def concerns (d : Directive) (s : Span) : Bool :=
  Span.target.startsWith d.target && (d.span.all (· == Span.title)) &&
    d.fields.all fun p => (s.fields.lookup p.name).isSome

/-- Whether a directive counts while the span is open. -/
def covers (d : Directive) (s : Span) : Bool :=
  d.concerns s && d.fields.all fun p =>
    p.value.all fun v => (s.fields.lookup p.name).any v.describes

/-- The condition that a directive states between braces. -/
def fieldPattern? (chars : List Char) : Option FieldPattern :=
  match chars with
  | [] => none
  | _ =>
    let name := chars.takeWhile (· ≠ '=')
    match chars.drop name.length with
    | [] => some { name := String.ofList name }
    | _ :: rest =>
      (ValuePattern.parse? (String.ofList (rest.takeWhile (· ≠ '=')))).map fun value =>
        { name := String.ofList name, value := some value }

/-- Reads the threshold at the end of a directive, which may be left out. -/
def withThreshold? (d : Directive) (chars : List Char) : Option Directive :=
  if chars.isEmpty then some d else (Threshold.parse? chars).map fun threshold => { d with threshold }

/-- Reads what follows a part of the program and a span. -/
def afterSpan? (d : Directive) : List Char → Option Directive
  | '=' :: rest => d.withThreshold? rest
  | rest => if rest.all Text.isBlank then some d else none

/-- Reads a span, after its opening bracket, and what follows it. -/
def withSpan? (d : Directive) (chars : List Char) : Option Directive :=
  let name := chars.takeWhile fun c => c ≠ ']' && c ≠ '\x7b'
  match chars.drop name.length with
  | ']' :: rest => { d with span := some (String.ofList name) }.afterSpan? rest
  | '\x7b' :: rest =>
    let span := if name.isEmpty then none else some (String.ofList name)
    let field := rest.takeWhile (· ≠ '\x7d')
    match fieldPattern? field, rest.drop field.length with
    | some pattern, '\x7d' :: ']' :: rest => { d with span, fields := [pattern] }.afterSpan? rest
    | _, _ => none
  | _ => none

/-- A character that may start the name of a part of the program. -/
def isTargetStart (c : Char) : Bool :=
  Text.isAlphanumeric c || c = '-' || c = ':' || c = '_'

/-- Reads a directive. A name alone is that of a threshold or of a part of the program. Blanks before it
belong to the name, so that it is no threshold then and there is no such part. A threshold of its own is
not allowed after them. -/
def parse? (chars : List Char) : Option Directive :=
  let blanks := chars.takeWhile Text.isBlank
  let name := chars.takeWhile fun c => c ≠ '=' && c ≠ '['
  let target := String.ofList name
  match chars.drop blanks.length with
  | [] => none
  | first :: _ =>
    if first ≠ '[' && !isTargetStart first then none
    else match chars.drop name.length with
      | [] => some ((({} : Directive).withThreshold? chars).getD { target })
      | '=' :: rest => if blanks.isEmpty then { target : Directive }.withThreshold? rest else none
      | _ :: rest =>
        if blanks.isEmpty || !(rest.dropWhile (· ≠ ']')).contains '=' then
          { target : Directive }.withSpan? rest
        else none

/-- The names of the data that a directive asks for. -/
def fieldNames (d : Directive) : List String := d.fields.map FieldPattern.name

/-- Whether a name comes before another one, by the codes of their characters. -/
def comesBefore (name other : String) : Bool :=
  name.toList.lex other.toList fun c d => c.toNat < d.toNat

/-- Whether a directive says as much about a part of the program as another one, or more. If they ask for
different data, the later name says more. -/
def isAsSpecific (d e : Directive) : Bool :=
  e.target.utf8ByteSize < d.target.utf8ByteSize ||
    (e.target.utf8ByteSize = d.target.utf8ByteSize && !d.fieldNames.lex e.fieldNames comesBefore)

end Directive

/-- A log filter. -/
structure LogFilter where
  directives : List Directive
  deriving DecidableEq, Repr

namespace LogFilter

/-- The filter with one more directive, in place of one about the same. -/
def insert (f : LogFilter) (d : Directive) : LogFilter :=
  ⟨f.directives.filter (!d.sameScope ·) ++ [d]⟩

/-- The filter that a text describes. Without any directive, errors are shown. -/
def parse? (text : String) : Option LogFilter := do
  let parts := (text.splitOn ",").filter (!·.isEmpty)
  let directives ← parts.mapM (Directive.parse? ·.toList)
  match directives with
  | [] => return ⟨[{ threshold := some .error }]⟩
  | _ => return directives.foldl insert ⟨[]⟩

/-- The filter that shows warnings and errors. -/
def warnings : LogFilter := ⟨[{ threshold := some .warn }]⟩

/-- The filter that a text describes, or that for warnings if it describes none. -/
def ofText (text : String) : LogFilter := (parse? text).getD warnings

/-- How detailed the log of a part of the program is. Directives with fields count for events only
that have them. -/
def threshold (f : LogFilter) (target : String) (hasField : String → Bool) : Threshold :=
  let matching := f.directives.filter fun d =>
    d.isStatic && target.startsWith d.target && d.fields.all (hasField ·.name)
  let best := matching.foldl (fun best d =>
    match best with
    | some b => if d.isAsSpecific b then some d else some b
    | none => some d) none
  (best.map Directive.threshold).getD none

/-- Whether an event is shown that happened within spans. -/
def showsEvent (f : LogFilter) (e : Event) (within : List Span) : Bool :=
  (within.any fun s => f.directives.any fun d =>
    d.isDynamic && d.covers s && d.threshold.admits e.level) ||
  (f.threshold e.target fun name => name = "message" || (e.fields.lookup name).isSome).admits e.level

/-- Whether a span is shown with the events within it. -/
def showsSpan (f : LogFilter) (s : Span) : Bool :=
  (f.directives.any fun d => d.isDynamic && d.concerns s) ||
    (f.threshold Span.target fun _ => true).admits Span.level

end LogFilter

/-! ## Log lines -/

/-- Data as a log shows it. -/
def fieldsText (fields : List (String × String)) : String :=
  " ".intercalate (fields.map fun (name, value) => name ++ "=" ++ value)

/-- A span as a log shows it. -/
def spanText (s : Span) : String :=
  Span.title ++ "\x7b" ++ fieldsText s.fields ++ "\x7d:"

/-- An event as a line of a log, with the spans that it is shown within. -/
def eventText (e : Event) (within : List Span) : String :=
  let context := String.join (within.map spanText)
  " ".intercalate <|
    [e.level.display] ++ (if context.isEmpty then [] else [context]) ++ [e.message] ++
      (if e.fields.isEmpty then [] else [fieldsText e.fields])

/-- The lines that a log has for the records of a run. Spans have none of their own. -/
def LogFilter.lines (f : LogFilter) (records : List Record) : List String :=
  records.filterMap fun
    | .event e within =>
      if f.showsEvent e within then some (eventText e (within.filter f.showsSpan)) else none
    | .opened _ => none

end ShellScript.Cli
