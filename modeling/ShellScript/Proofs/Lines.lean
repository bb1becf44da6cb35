import ShellScript.Proofs.LineEnds
import ShellScript.Proofs.Placement

/-!
# Scripts line by line

A script is read line by line: the lines that can be read on their own make up a script whose commands are
those of the lines one after the other, whether a newline or a carriage return and a newline stand between
them, and whatever comments are behind them (`parseString_joinLines`).
-/

namespace ShellScript

/-! ## Commands at the end of a line -/

namespace Lexer

/-- A command of these words that the end of a line ended. -/
inductive Finished (label : String) (words : List Token) :
    List UInt8 → Read Cursor (Option Command) → Prop
  | input {c l} (tokens : c.tokens = words) (terminator : c.terminator = none)
    (rest : l.input.rest = []) : Finished label words [] (.ok (some c), l)
  | newline {c l tail} (tokens : c.tokens = words) (terminator : c.terminator = some .newline)
    (rest : tail = 0x0A :: l.input.rest) (filename : l.filename = label) :
    Finished label words tail (.ok (some c), l)

/-- What the end of a line comes to where there are no words: the next line is read. -/
inductive Passed (label : String) (escape : EscapeSet) :
    List UInt8 → Read Cursor (Option Command) → Prop
  | input {l} (rest : l.input.rest = []) : Passed label escape [] (.ok none, l)
  | newline {l : Lexer Cursor} {tail} (rest : tail = 0x0A :: l.input.rest)
    (filename : l.filename = label) : Passed label escape tail (l.readCommand escape)

variable {label : String} {escape : EscapeSet} {l l' : Lexer Cursor} {a : Assembly} {es : List Element}
variable {tail : List UInt8}

/-- A newline behind the last word finishes the command. -/
theorem finished_of_newline (es : List Element)
    (hwords : a.words ++ (Token.ofElements? es).toList ≠ [])
    (h : l.readToken escape (!a.words.isEmpty) = (.ok (some ⟨es ++ [.separator .newline]⟩), l'))
    (hrest : tail = 0x0A :: l'.input.rest) :
    Finished l'.filename (a.words ++ (Token.ofElements? es).toList) tail
      (iterate (commandStep escape) size_commandStep_lt a l) := by
  obtain ⟨d, l'', hstep, htokens, hterminator, hinput, hlabel⟩ := commandStep_separator rfl hwords h
  rw [iterate_eq, hstep]
  exact .newline htokens hterminator (by rw [hrest, hinput]) hlabel

/-- At the end of a line a command with words is over. -/
theorem finished_of_lineEnd (escape : EscapeSet) (ha : a.words ≠ []) (hend : LineEnd tail)
    (h : l.input.rest = tail) :
    Finished l.filename a.words tail (iterate (commandStep escape) size_commandStep_lt a l) := by
  cases hend with
  | last =>
    obtain ⟨d, l', hstep, htokens, hterminator, hrest⟩ := commandStep_end escape ha h
    rw [iterate_eq, hstep]
    exact .input htokens hterminator hrest
  | newline rest =>
    have hclosed := closes_of_lineEnd escape (!a.words.isEmpty) {}
      (l := { l with tokenStart := l.position }) (.newline rest) h
    generalize hr : iterate _ _ ({} : Gathering) { l with tokenStart := l.position } = r at hclosed
    cases hclosed with
    | word _ _ known => cases known rfl
    | @newline l' hrest hlabel =>
      have hfinished := finished_of_newline [] (by simpa [Token.ofElements?] using ha) hr hrest
      rw [hlabel] at hfinished
      simpa [Token.ofElements?] using hfinished

/-- So it is where a word was open at the end of the line. -/
theorem finished_of_closes (escape : EscapeSet) (hreadable : AllReadable es) (hend : LineEnd tail)
    (hwords : a.words ++ (Token.ofElements? es).toList ≠ [])
    (h : Closes label es tail (l.readToken escape (!a.words.isEmpty))) :
    Finished label (a.words ++ (Token.ofElements? es).toList) tail
      (iterate (commandStep escape) size_commandStep_lt a l) := by
  generalize hr : l.readToken escape (!a.words.isEmpty) = r at h
  cases h with
  | @newline l' hrest hlabel => exact hlabel ▸ finished_of_newline es hwords hr hrest
  | @word l' hrest hlabel known =>
    by_cases hes : es = []
    · subst hes
      have ha : a.words ≠ [] := by simpa [Token.ofElements?] using hwords
      obtain ⟨d, l'', hstep, htokens, hterminator, hinput⟩ := commandStep_none ha hr
      cases known rfl
      rw [iterate_eq, hstep]
      exact .input (by simpa [Token.ofElements?] using htokens) hterminator (hinput ▸ hrest)
    · rw [Token.ofElements?_of_ne_nil hes] at hr ⊢
      obtain ⟨a', hstep, hwords'⟩ := commandStep_word hes hreadable hr
      have hfinished := finished_of_lineEnd escape (a := a') (by simp [hwords']) hend hrest
      rw [iterate_eq, hstep]
      rwa [hlabel, hwords'] at hfinished

/-- Where there is no word either, the next line is read. -/
theorem passed_of_closes (escape : EscapeSet)
    (h : Closes label [] tail (l.readToken escape false)) :
    Passed label escape tail (l.readCommand escape) := by
  generalize hr : l.readToken escape false = r at h
  unfold Lexer.readCommand
  rw [iterate_eq]
  cases h with
  | @word l' hrest hlabel known =>
    cases known rfl
    have hstep : commandStep escape {} l = (.ok (.done none), l') := by
      unfold commandStep
      simp only [List.isEmpty_nil, Bool.not_true, hr]
      rfl
    rw [hstep]
    exact .input hrest
  | @newline l' hrest hlabel =>
    have hstep : commandStep escape {} l = (.ok (.more {}), l'.note (.emptyCommand .newline)) := by
      unfold commandStep
      simp only [List.isEmpty_nil, Bool.not_true, hr]
      rfl
    rw [hstep]
    exact .newline hrest hlabel

end Lexer

namespace Correspondence

open Lexer

variable {label : String} {text : List Char} {more tail : List UInt8} {escape : EscapeSet}

/-- A trailer, and the lines behind it. -/
theorem continuation_of_trailer (hescape : ∀ c ∈ ['\r', '#'], escape.contains c = false)
    (htrailer : Trailer more tail) (hnewline : '\n' ∉ text)
    (hdollar : more.head? = some 0x23 → text.getLast? ≠ some '$') :
    Continuation label text more escape (fun _ es => Closes label es tail)
      (fun words => Finished label words tail) (Passed label escape tail) where
  ne_nil := htrailer.ne_nil
  token h hstands := h.readToken_line hescape htrailer hnewline hdollar hstands
  command hreadable hwords := finished_of_closes escape hreadable htrailer.lineEnd hwords
  nothing := passed_of_closes escape

end Correspondence

/-! ## Lines -/

namespace Command

/-- A command without the places that it comes from: its words and its terminator. -/
def outline (c : Command) : List Token × Option Separator :=
  (c.tokens.map Token.unplaced, c.terminator)

/-- A command that ends with its line, unless it ended before. -/
def endWith (terminator : Option Separator) (c : Command) : Command :=
  { c with terminator := c.terminator.or terminator }

/-- A command that was ended does not end again. -/
theorem endWith_of_terminated {c : Command} (h : c.terminator ≠ none) (terminator : Option Separator) :
    c.endWith terminator = c := by
  obtain ⟨tokens, _ | s, location⟩ := c
  · exact (h rfl).elim
  · rfl

/-- A line without an end leaves its command open. -/
@[simp] theorem endWith_none (c : Command) : c.endWith none = c := by
  simp [endWith]

/-- A command that went on to the end of its line only gained a terminator. -/
theorem outline_endWith {c d : Command} (h : d.tokens = c.tokens) (hc : c.terminator = none) :
    d.outline = (c.endWith d.terminator).outline := by
  simp [outline, endWith, h, hc]

end Command

/-- What forgets its place forgets where it moved. -/
@[simp] theorem Relocation.unplaced_element (φ : Relocation) (e : Element) :
    (φ.element e).unplaced = e.unplaced := by
  cases e <;> rfl

/-- The outline of a command does not tell where that moved. -/
@[simp] theorem Relocation.outline_command (φ : Relocation) (c : Command) :
    (φ.command c).outline = c.outline := by
  simp [Command.outline, Relocation.command, Token.unplaced, Relocation.token, Function.comp_def]

/-- What ends a command at the end of a line. -/
def lineTerminator (tail : List UInt8) : Option Separator :=
  if tail.isEmpty then none else some .newline

namespace Lexer

variable {label : String} {escape : EscapeSet} {words : List Token} {tail : List UInt8}

/-- A finished command has the words, the end of its line for a terminator, and the next line behind it. -/
theorem Finished.exists_eq {y : Read Cursor (Option Command)} (h : Finished label words tail y) :
    ∃ c l, y = (.ok (some c), l) ∧ c.tokens = words ∧ c.terminator = lineTerminator tail ∧
      l.input.rest = tail.tail ∧ (tail = [] ∨ l.filename = label) := by
  cases h with
  | @input c l tokens terminator rest => exact ⟨c, l, rfl, tokens, terminator, rest, .inl rfl⟩
  | @newline c l _ tokens terminator rest filename =>
    subst rest
    exact ⟨c, l, rfl, tokens, terminator, rfl, .inr filename⟩

end Lexer

namespace Correspondence

open Lexer

variable {label : String} {text : List Char} {more tail : List UInt8} {escape : EscapeSet}
variable {l m : Lexer Cursor}

/-- The commands of the shorter text, and behind them what the next lines hold. -/
theorem items_line (hescape : ∀ c ∈ ['\r', '#'], escape.contains c = false)
    (htrailer : Trailer more tail) (hnewline : '\n' ∉ text)
    (hdollar : more.head? = some 0x23 → text.getLast? ≠ some '$')
    (h : (lengthened label text more).Sim l m) (hstands : Stands label text l) {cs : List Command}
    (hitems : ({ lexer := l, escape } : Parser Cursor).items.1 = cs.map .ok) :
    ∃ (ds : List Command) (m' : Lexer Cursor),
      ({ lexer := m, escape } : Parser Cursor).items.1 =
        ds.map .ok ++ ({ lexer := m', escape } : Parser Cursor).items.1 ∧
      ds.map Command.outline = cs.map (fun c => (c.endWith (lineTerminator tail)).outline) ∧
      m'.input.rest = tail.tail ∧ (tail = [] ∨ m'.filename = label) := by
  -- along the commands of the shorter text: each of them was ended in it, or is the last one
  induction cs generalizing l m with
  | nil =>
    obtain ⟨l', hl⟩ := Parser.readCommand_of_items_nil rfl hitems
    have hcompleted := (continuation_of_trailer hescape htrailer hnewline hdollar).readCommand h hstands hl
    rw [Parser.items_of_readCommand rfl]
    dsimp only
    generalize hy : m.readCommand escape = y at hcompleted
    cases hcompleted with
    | passed ends =>
      cases ends with
      | @input m' rest =>
        refine ⟨[], m', ?_, rfl, rest, .inl rfl⟩
        rw [Parser.items_of_rest (p := { lexer := m', escape }) rest]
        rfl
      | @newline m' _ rest filename =>
        subst rest
        refine ⟨[], m', ?_, rfl, rfl, .inr filename⟩
        rw [Parser.items_of_readCommand (p := { lexer := m', escape }) rfl]
        rfl
  | cons c cs ih =>
    obtain ⟨l', hl, hrest⟩ := Parser.readCommand_of_items hitems
    have hcompleted := (continuation_of_trailer hescape htrailer hnewline hdollar).readCommand h hstands hl
    rw [Parser.items_of_readCommand rfl]
    dsimp only
    generalize hy : m.readCommand escape = y at hcompleted
    cases hcompleted with
    | @same _ _ m' sim stands terminated =>
      obtain ⟨ds, m'', hds, houtline, hm', hlabel⟩ := ih sim stands hrest
      refine ⟨c :: ds, m'', ?_, ?_, hm', hlabel⟩
      · dsimp only
        rw [hds]
        rfl
      · rw [List.map_cons, List.map_cons, houtline, Command.endWith_of_terminated terminated]
    | finished last rest ends =>
      obtain ⟨d, m', rfl, htokens, hterminator, hm, hlabel⟩ := ends.exists_eq
      -- the shorter text is over, so there is no command behind this one
      have hnone := Parser.items_of_rest (p := { lexer := l', escape }) rest
      have hcs : cs = [] := by simpa using hrest.symm.trans hnone
      refine ⟨[d], m', rfl, ?_, hm, hlabel⟩
      rw [hcs, ← hterminator]
      simp [Command.outline_endWith htokens last]

end Correspondence

namespace Parser

variable {escape : EscapeSet} {label : String} {text : List Char} {more tail : List UInt8}

/-- A text that can be read, with a trailer behind it: its commands, and what the lines behind it hold,
moved to where they stand. -/
theorem items_trailer (hescape : ∀ c ∈ ['\r', '#'], escape.contains c = false)
    (htrailer : Trailer more tail) (hnewline : '\n' ∉ text)
    (hdollar : more.head? = some 0x23 → text.getLast? ≠ some '$') {cs : List Command}
    (h : (ofCursor (Utf8.encodeChars text) label escape).items.1 = cs.map .ok) :
    ∃ (ds : List Command) (φ : Relocation),
      (ofCursor (Utf8.encodeChars text ++ more) label escape).items.1 =
        ds.map .ok ++ (ofCursor tail.tail label escape).items.1.map φ.item ∧
      ds.map Command.outline = cs.map (fun c => (c.endWith (lineTerminator tail)).outline) := by
  have hstands : (ofCursor (Utf8.encodeChars text) label escape).lexer.Stands label text :=
    ⟨rfl, ⟨[], text, rfl, rfl, rfl⟩, ⟨[], text, rfl, rfl⟩⟩
  have sim := Correspondence.sim_extended label (Utf8.complete_encodeChars text) more
  obtain ⟨ds, m, hitems, houtline, hrest, hlabel⟩ :=
    Correspondence.items_line hescape htrailer hnewline hdollar sim hstands h
  refine ⟨ds, .after m.position, hitems.trans (congrArg _ ?_), houtline⟩
  rcases hlabel with rfl | rfl
  · have hnone : (ofCursor [] label escape).items.1 = [] := items_of_rest rfl
    rw [items_of_rest (p := { lexer := m, escape }) hrest, List.tail_nil, hnone]
    rfl
  · have hparsers : (Correspondence.shifted m.filename m.position m.journal).Parsers
        (ofCursor tail.tail m.filename escape) { lexer := m, escape } :=
      ⟨⟨⟨hrest, (Relocation.after_start _).symm, Position.Counted.start⟩, rfl, rfl, [], rfl, rfl⟩,
        rfl, rfl⟩
    exact (hparsers.items fun _ => id).2

end Parser

/-! ## Scripts -/

/-- A line of a script: its text, a comment behind it, and whether a carriage return ends it. -/
structure Line where
  text : String
  comment : Option String := none
  carriageReturn : Bool := false

namespace Line

/-- What stands behind the text of a line. -/
def trailer (l : Line) : String :=
  (l.comment.map ("#" ++ ·)).getD "" ++ if l.carriageReturn then "\r" else ""

def source (l : Line) : String := l.text ++ l.trailer

/-- Whether a line is one line, and its comment cannot be taken for a parameter. -/
structure WellFormed (l : Line) : Prop where
  text : '\n' ∉ l.text.toList
  comment : ∀ c ∈ l.comment, '\n' ∉ c.toList ∧ l.text.toList.getLast? ≠ some '$'

/-- What stands behind the text of a line is a trailer, unless it is nothing at all. -/
theorem trailer_of_wellFormed {l : Line} (h : l.WellFormed) {tail : List UInt8} (hend : LineEnd tail)
    (hne : Utf8.encode l.trailer ++ tail ≠ []) :
    Trailer (Utf8.encode l.trailer ++ tail) tail ∧
      ((Utf8.encode l.trailer ++ tail).head? = some 0x23 → l.text.toList.getLast? ≠ some '$') := by
  have hhash : String.utf8EncodeChar '#' = [0x23] := rfl
  have hreturn : String.utf8EncodeChar '\r' = [0x0D] := rfl
  obtain ⟨text, comment, carriageReturn⟩ := l
  cases comment with
  | some c =>
    obtain ⟨hc, hdollar⟩ := h.comment c rfl
    -- a comment takes the carriage return behind it too
    let behind := c.toList ++ if carriageReturn then ['\r'] else []
    have hbehind : '\n' ∉ behind := by
      cases carriageReturn <;> simp [behind, hc]
    have hsource : Utf8.encode (trailer ⟨text, some c, carriageReturn⟩) ++ tail =
        0x23 :: (Utf8.encodeChars behind ++ tail) := by
      cases carriageReturn <;> simp [trailer, Utf8.encode, behind, hhash]
    rw [hsource]
    refine ⟨.comment hend fun hmem => ?_, fun _ => hdollar⟩
    exact hbehind (Utf8.mem_of_ascii_mem (d := '\n') (by decide) hmem)
  | none =>
    cases carriageReturn with
    | true =>
      have hsource : Utf8.encode (trailer ⟨text, none, true⟩) ++ tail = 0x0D :: tail := by
        simp [trailer, Utf8.encode, hreturn]
      rw [hsource]
      exact ⟨.carriageReturn hend, by simp⟩
    | false =>
      have hsource : Utf8.encode (trailer ⟨text, none, false⟩) ++ tail = tail := by
        simp [trailer, Utf8.encode]
      rw [hsource] at hne ⊢
      cases hend with
      | last => exact (hne rfl).elim
      | newline rest => exact ⟨.newline rest, by simp⟩

end Line

namespace Parser

/-- A line, and the lines behind it. -/
theorem items_source {label : String} {l : Line} (hl : l.WellFormed) {tail : List UInt8}
    (hend : LineEnd tail) {cs : List Command}
    (h : (ofCursor (Utf8.encode l.text) label .default).items.1 = cs.map .ok) :
    ∃ (ds : List Command) (φ : Relocation),
      (ofCursor (Utf8.encode l.source ++ tail) label .default).items.1 =
        ds.map .ok ++ (ofCursor tail.tail label .default).items.1.map φ.item ∧
      ds.map Command.outline = cs.map (fun c => (c.endWith (lineTerminator tail)).outline) := by
  have hsource : Utf8.encode l.source ++ tail =
      Utf8.encode l.text ++ (Utf8.encode l.trailer ++ tail) := by
    simp [Line.source, Utf8.encode]
  rw [hsource]
  by_cases hne : Utf8.encode l.trailer ++ tail = []
  · have htail : tail = [] := (List.append_eq_nil_iff.mp hne).2
    have hnone : (ofCursor [] label .default).items.1 = [] := items_of_rest rfl
    subst htail
    refine ⟨cs, .same, ?_, ?_⟩
    · rw [hne, List.append_nil, h, List.tail_nil, hnone]
      simp
    · simp [lineTerminator]
  · obtain ⟨htrailer, hdollar⟩ := Line.trailer_of_wellFormed hl hend hne
    refine items_trailer ?_ htrailer hl.text hdollar h
    simp [EscapeSet.contains_default]

end Parser

/-- The commands of lines one after the other: a newline ends those that are open at the end of a line
that is not the last one. -/
def joinCommands : List (List Command) → List Command
  | [] => []
  | [cs] => cs
  | cs :: css => cs.map (Command.endWith (some .newline)) ++ joinCommands css

/-- The text of lines one after the other. -/
def joinLines (lines : List Line) : String :=
  String.intercalate "\n" (lines.map Line.source)

/-- Lines that can be read on their own are read one after the other: the script that they make up has
the commands of the lines, whatever comments stand behind them and whether or not they end in carriage
returns. -/
theorem parseString_joinLines (filename : String) {lines : List Line} {css : List (List Command)}
    (h : List.Forall₂ (fun line cs => line.WellFormed ∧ parseString line.text filename = .ok cs)
      lines css) :
    ∃ ds, parseString (joinLines lines) filename = .ok ds ∧
      ds.map Command.outline = (joinCommands css).map Command.outline := by
  suffices hitems : ∃ ds : List Command,
      (Parser.ofCursor (Utf8.encode (joinLines lines)) filename .default).items.1 = ds.map .ok ∧
        ds.map Command.outline = (joinCommands css).map Command.outline by
    obtain ⟨ds, hds, houtline⟩ := hitems
    exact ⟨ds, Parser.collect_eq_ok.mpr hds, houtline⟩
  -- line by line: what stands behind a line is the source of the other lines, which moves
  induction h with
  | nil => exact ⟨[], Parser.items_of_rest rfl, rfl⟩
  | @cons l cs lines css hl hrest ih =>
    obtain ⟨hwell, hparse⟩ := hl
    have hcs := Parser.collect_eq_ok.mp hparse
    cases hrest with
    | nil =>
      obtain ⟨ds, φ, hds, houtline⟩ := Parser.items_source hwell .last hcs
      have hnone : (Parser.ofCursor [] filename .default).items.1 = [] := Parser.items_of_rest rfl
      rw [List.tail_nil, hnone, List.map_nil, List.append_nil, List.append_nil] at hds
      have hjoin : joinLines [l] = l.source := String.intercalate_singleton
      refine ⟨ds, hjoin ▸ hds, houtline.trans ?_⟩
      simp [joinCommands, lineTerminator]
    | @cons l' cs' lines css hl' hlines =>
      obtain ⟨es, hes, hjoined⟩ := ih
      let rest := Utf8.encode (joinLines (l' :: lines))
      have hsource : Utf8.encode (joinLines (l :: l' :: lines)) =
          Utf8.encode l.source ++ 0x0A :: rest := by
        have hnewline : String.utf8EncodeChar '\n' = [0x0A] := rfl
        simp [rest, joinLines, String.intercalate_cons_cons, Utf8.encode, hnewline]
      obtain ⟨ds, φ, hds, houtline⟩ := Parser.items_source hwell (.newline rest) hcs
      refine ⟨ds ++ es.map φ.command, ?_, ?_⟩
      · rw [hsource, hds, List.tail_cons, hes]
        simp [Function.comp_def, Relocation.item]
      · rw [List.map_append, houtline, List.map_map]
        have hmoved : Command.outline ∘ φ.command = Command.outline := by
          funext c
          exact Relocation.outline_command φ c
        rw [hmoved, hjoined]
        simp [joinCommands, lineTerminator]

/-- A dollar sign before a carriage return stands for itself, and an apostrophe in a comment is no quote. -/
theorem parseString_joinLines_comment :
    let lines : List Line := [⟨"a $", none, true⟩, ⟨"b", some "it's", false⟩]
    ∃ c d : Command,
      List.Forall₂ (fun line cs => line.WellFormed ∧ parseString line.text "s" = .ok cs) lines [[c], [d]] ∧
      joinLines lines = "a $\r\nb#it's" ∧
      ∃ ds, parseString "a $\r\nb#it's" "s" = .ok ds ∧
        ds.map Command.outline = [c.endWith (some .newline), d].map Command.outline := by
  intro lines
  let c : Command := ⟨[⟨[.literal ⟨"a", ⟨"s", .start⟩⟩]⟩, ⟨[.literal ⟨"$", ⟨"s", ⟨2, 1, 3⟩⟩⟩]⟩], none,
    ⟨"s", .start⟩⟩
  let d : Command := ⟨[⟨[.literal ⟨"b", ⟨"s", .start⟩⟩]⟩], none, ⟨"s", .start⟩⟩
  have hfirst : Line.WellFormed ⟨"a $", none, true⟩ := ⟨by decide, by simp⟩
  have hsecond : Line.WellFormed ⟨"b", some "it's", false⟩ := ⟨by decide, by decide⟩
  have hc : parseString "a $" "s" = .ok [c] := by decide +kernel
  have hd : parseString "b" "s" = .ok [d] := by decide +kernel
  have hlines : List.Forall₂
      (fun (line : Line) cs => line.WellFormed ∧ parseString line.text "s" = .ok cs) lines [[c], [d]] :=
    .cons ⟨hfirst, hc⟩ (.cons ⟨hsecond, hd⟩ .nil)
  have hjoin : joinLines lines = "a $\r\nb#it's" := by decide +kernel
  have hscript := parseString_joinLines "s" hlines
  rw [hjoin] at hscript
  exact ⟨c, d, hlines, hjoin, hscript⟩

end ShellScript
