import ShellScript.Exec.Echo
import ShellScript.Proofs.EscapeTable

/-!
# What `echo` writes

`echo` decodes its arguments one by one. No escape reaches over the space between two of them, so what it
writes are the arguments joined by spaces and decoded together (`echoArguments_eq`). `echo_writes` says
this with the options that the first argument sets, for every list of arguments.
-/

namespace ShellScript

/-! ## A space ends every escape -/

namespace Escape

/-- A space is no digit. -/
theorem digits_append_space {radix : Nat} (hradix : radix ∈ [8, 16]) (limit : Nat)
    (first rest : List UInt8) :
    digits radix ((first ++ 0x20 :: rest).take limit) = digits radix (first.take limit) := by
  have hspace : ∀ radix ∈ [8, 16], digitValue? radix 0x20 = none := by decide
  induction first generalizing limit with
  | nil =>
    cases limit with
    | zero => rfl
    | succ limit => simp [digits_cons, hspace radix hradix, digits]
  | cons b first ih =>
    cases limit with
    | zero => rfl
    | succ limit =>
      rw [List.cons_append, List.take_succ_cons, List.take_succ_cons, digits_cons, digits_cons, ih]

/-- Which escape stands behind a backslash is said by what stands before the next space. -/
theorem escape?_append_space (first rest : List UInt8) :
    escape? (first ++ 0x20 :: rest) = escape? first := by
  cases first with
  | nil => rfl
  | cons code first =>
    have hread : ∀ e ∈ numerics, e.read? (first ++ 0x20 :: rest) = e.read? first := by
      intro e he
      rw [Numeric.read?, Numeric.read?, digits_append_space (Numeric.radix_mem he)]
    rw [List.cons_append, escape?, escape?]
    cases letters.find? (Utf8.ascii ·.2 = code) with
    | some l => rfl
    | none =>
      cases hfound : numerics.find? (Utf8.ascii ·.letter = code) with
      | none => rfl
      | some e => exact hread e (List.mem_of_find?_eq_some hfound)

/-- What text comes to with a space and more text behind it, given what it comes to alone. -/
def thenSpace (rest : List UInt8) (decoded : List UInt8 × Bool) : List UInt8 × Bool :=
  if decoded.2 then decoded else (decodeBytes rest).map (decoded.1 ++ 0x20 :: ·) id

/-- What was decoded before makes no difference to what follows. -/
theorem thenSpace_map (rest before : List UInt8) (decoded : List UInt8 × Bool) :
    thenSpace rest (decoded.map (before ++ ·) id) = (thenSpace rest decoded).map (before ++ ·) id := by
  obtain ⟨bytes, stopped⟩ := decoded
  cases stopped <;> simp [thenSpace, Prod.map]

/-- Text with a space in it is decoded on either side of the space for itself. -/
theorem decodeBytes_append_space (first rest : List UInt8) :
    decodeBytes (first ++ 0x20 :: rest) = thenSpace rest (decodeBytes first) := by
  induction first using drop_induction with
  | nil =>
    rw [List.nil_append, decodeBytes_cons (by decide), decodeBytes_nil]
    rfl
  | cons b first ih =>
    have hfirst : decodeBytes (first ++ 0x20 :: rest) = thenSpace rest (decodeBytes first) := ih 0
    rw [List.cons_append]
    by_cases hb : b = backslash
    · -- the space stops no escape: it is a part of none
      have hhead : (first ++ 0x20 :: rest).head? = some (Utf8.ascii 'c') ↔
          first.head? = some (Utf8.ascii 'c') := by
        cases first with
        | nil => simp [Utf8.ascii]
        | cons code first => rfl
      rw [hb, decodeBytes_backslash, decodeBytes_backslash, escape?_append_space]
      simp only [hhead]
      split
      · rfl
      · cases hescape : escape? first with
        | none =>
          rw [Option.elim_none, Option.elim_none, hfirst]
          exact (thenSpace_map rest [backslash] _).symm
        | some x =>
          have hlength : x.2 + 1 ≤ first.length := lt_length_of_escape? hescape
          rw [Option.elim_some, Option.elim_some, thenSpace_map, ← ih,
            List.drop_append_of_le_length hlength]
    · rw [decodeBytes_cons hb, decodeBytes_cons hb, hfirst]
      exact (thenSpace_map rest [b] _).symm

end Escape

/-- The arguments are written as if they were joined first. -/
theorem echoArguments_eq (escapes : Bool) (arguments : List String) :
    echoArguments escapes arguments =
      (let joined := Utf8.encode (" ".intercalate arguments)
      if escapes then Escape.decodeBytes joined else (joined, false)) := by
  induction arguments with
  | nil => cases escapes <;> simp [echoArguments, Utf8.encode, Escape.decodeBytes_nil]
  | cons argument rest ih =>
    cases rest with
    | nil => simp [echoArguments]
    | cons next rest =>
      have hjoined : Utf8.encode (" ".intercalate (argument :: next :: rest)) =
          Utf8.encode argument ++ 0x20 :: Utf8.encode (" ".intercalate (next :: rest)) := by
        simp [Utf8.encode, String.intercalate_cons_cons, String.utf8EncodeChar]
      rw [echoArguments, ih, hjoined]
      cases escapes with
      | false => simp
      | true =>
        simp only [if_true, List.isEmpty_cons, Bool.or_false, Escape.decodeBytes_append_space,
          Escape.thenSpace]
        rfl

/-! ## Options -/

/-- Whether an argument is a dash and these letters, which are flags. -/
def IsOption (argument : String) (letters : List Char) : Prop :=
  argument.toList = '-' :: letters ∧ letters ≠ [] ∧ ∀ c ∈ letters, c ∈ ['n', 'e', 'E']

namespace EchoOptions

/-- The options that flag letters set: `n` leaves out the newline, and of `e` and `E` the last one counts. -/
def ofLetters (letters : List Char) : EchoOptions where
  newline := 'n' ∉ letters
  escapes := letters.reverse.find? (· ∈ ['e', 'E']) = some 'e'

/-- Flag letters set the options one after the other, the later over the earlier. -/
theorem setFlags_eq (o : EchoOptions) {letters : List Char} (h : ∀ c ∈ letters, c ∈ ['n', 'e', 'E']) :
    o.setFlags letters = some {
      newline := o.newline && 'n' ∉ letters
      escapes := (letters.reverse.find? (· ∈ ['e', 'E'])).elim o.escapes (· = 'e') } := by
  induction letters generalizing o with
  | nil => simp [setFlags]
  | cons c letters ih =>
    rw [List.forall_mem_cons] at h
    obtain ⟨hc, hletters⟩ := h
    simp only [List.mem_cons, List.not_mem_nil, or_false] at hc
    rw [List.reverse_cons, List.find?_append]
    rcases hc with rfl | rfl | rfl
    · simp [setFlags, ih _ hletters]
    · rw [setFlags, ih _ hletters]
      cases letters.reverse.find? (· ∈ ['e', 'E']) <;> simp
    · rw [setFlags, ih _ hletters]
      cases letters.reverse.find? (· ∈ ['e', 'E']) <;> simp

/-- Letters that set options are flags, all of them. -/
theorem mem_of_setFlags {o o' : EchoOptions} {letters : List Char} (h : o.setFlags letters = some o') :
    ∀ c ∈ letters, c ∈ ['n', 'e', 'E'] := by
  fun_induction setFlags o letters with
  | case1 => simp
  | case2 o letters ih => simpa using ih h
  | case3 o letters ih => simpa using ih h
  | case4 o letters ih => simpa using ih h
  | case5 => cases h

/-- Options are read from every argument that is a dash and flags. -/
theorem parse?_of_isOption {argument : String} {letters : List Char} (h : IsOption argument letters) :
    parse? argument = some (ofLetters letters) := by
  obtain ⟨htext, hne, hflags⟩ := h
  obtain ⟨flag, rest, rfl⟩ := List.exists_cons_of_ne_nil hne
  have hset : ({} : EchoOptions).setFlags (flag :: rest) = some (ofLetters (flag :: rest)) := by
    rw [setFlags_eq _ hflags, ofLetters]
    cases (flag :: rest).reverse.find? (· ∈ ['e', 'E']) <;> simp
  simp only [parse?, htext, hset]

/-- From any other argument none are. -/
theorem parse?_eq_none {argument : String} (h : ∀ letters, ¬IsOption argument letters) :
    parse? argument = none := by
  unfold parse?
  split
  · rename_i flag rest htext
    refine Option.eq_none_iff_forall_ne_some.mpr fun o ho => ?_
    exact h (flag :: rest) ⟨htext, by simp, mem_of_setFlags ho⟩
  · rfl

/-- The bytes that `echo` writes with these options: the arguments with single spaces between them, decoded
if escapes are, and a newline behind them unless it is left out or decoding stopped. -/
def written (o : EchoOptions) (arguments : List String) : List UInt8 :=
  let joined := Utf8.encode (" ".intercalate arguments)
  let decoded := if o.escapes then Escape.decodeBytes joined else (joined, false)
  decoded.1 ++ if o.newline ∧ decoded.2 = false then [0x0A] else []

end EchoOptions

/-! ## The write -/

/-- The bytes that are gathered argument by argument are those of the joined arguments. -/
theorem echoOutput_eq (o : EchoOptions) (arguments : List String) :
    echoOutput o arguments = o.written arguments := by
  rw [echoOutput, echoArguments_eq, EchoOptions.written]
  obtain ⟨bytes, stopped⟩ := if o.escapes then
    Escape.decodeBytes (Utf8.encode (" ".intercalate arguments))
    else (Utf8.encode (" ".intercalate arguments), false)
  cases o.newline <;> cases stopped <;> simp

section

variable [Output]

/-- Whether an action writes these bytes to standard output at once, fails if the write does, and changes
nothing else. -/
def WritesOnce (action : Action Unit) (bytes : List UInt8) : Prop :=
  ∀ run : Run, action run = ((Output.writeAll run.stdout bytes).1.mapError (.io ·.message),
    { run with stdout := (Output.writeAll run.stdout bytes).2 })

/-- Writing bytes to standard output is such an action. -/
theorem writesOnce_writeStdout (bytes : List UInt8) : WritesOnce (Action.writeStdout bytes) bytes := by
  intro run
  have hwrite : Action.writeStdout bytes run = Action.ofWriter (Output.writeAll run.stdout bytes).1
      { run with stdout := (Output.writeAll run.stdout bytes).2 } := rfl
  rw [hwrite]
  cases (Output.writeAll run.stdout bytes).1 <;> rfl

/-- `echo` writes once, with the options that it has read. -/
theorem writesOnce_echo {arguments rest : List String} {o : EchoOptions}
    (h : EchoOptions.split arguments = (o, rest)) : WritesOnce (echo arguments) (o.written rest) := by
  have hecho : echo arguments = Action.writeStdout (o.written rest) := by
    simp only [echo, h, echoOutput_eq]
  rw [hecho]
  exact writesOnce_writeStdout _

/-- What `echo` writes, in one write. If the first argument is a dash and flag letters, these set the options
and the other arguments are written; else all arguments are, with the options that hold at first. -/
theorem echo_writes (arguments : List String) :
    (∀ first rest letters, arguments = first :: rest → IsOption first letters →
      WritesOnce (echo arguments) ((EchoOptions.ofLetters letters).written rest)) ∧
    ((∀ first letters, arguments.head? = some first → ¬IsOption first letters) →
      WritesOnce (echo arguments) (({} : EchoOptions).written arguments)) := by
  constructor
  · rintro first rest letters rfl hoption
    refine writesOnce_echo ?_
    rw [EchoOptions.split, EchoOptions.parse?_of_isOption hoption]
  · intro hplain
    refine writesOnce_echo ?_
    cases arguments with
    | nil => rfl
    | cons first rest =>
      rw [EchoOptions.split, EchoOptions.parse?_eq_none fun letters => hplain first letters rfl]

end

/-- A sink without limits has the bytes behind what it had. -/
theorem WritesOnce.of_unlimited {action : Action Unit} {bytes : List UInt8} (h : WritesOnce action bytes)
    {run : Run} (hroom : run.stdout.room = none) (hperWrite : run.stdout.perWrite = none) :
    action run = (.ok (), { run with
      stdout := { run.stdout with contents := run.stdout.contents ++ bytes } }) := by
  have hwrite : Output.writeAll run.stdout bytes = _ := Sink.writeAll_of_unlimited hroom hperWrite bytes
  rw [h run, hwrite]
  rfl

/-- A backslash and a short number before a space, and the end of all output with arguments behind it: in a sink
without limits stand these bytes and no others. A letter that is no flag makes text of all. -/
theorem echo_writes_cut :
    IsOption "-Ee" ['E', 'e'] ∧
      WritesOnce (echo ["-Ee", "a\\", "\\x4", "b\\c1", "2"]) [0x61, 0x5C, 0x20, 0x04, 0x20, 0x62] ∧
      echo ["-Ee", "a\\", "\\x4", "b\\c1", "2"] ({} : Run) =
        (.ok (), ({ stdout := { contents := [0x61, 0x5C, 0x20, 0x04, 0x20, 0x62] } } : Run)) ∧
      (∀ first letters, ["-nx", "\\t"].head? = some first → ¬IsOption first letters) ∧
      WritesOnce (echo ["-nx", "\\t"]) [0x2D, 0x6E, 0x78, 0x20, 0x5C, 0x74, 0x0A] := by
  have hoption : IsOption "-Ee" ['E', 'e'] := by simp [IsOption]
  have hcut : (EchoOptions.ofLetters ['E', 'e']).written ["a\\", "\\x4", "b\\c1", "2"] =
      [0x61, 0x5C, 0x20, 0x04, 0x20, 0x62] := by decide +kernel
  have hwrites := (echo_writes ["-Ee", "a\\", "\\x4", "b\\c1", "2"]).1 _ _ _ rfl hoption
  rw [hcut] at hwrites
  have hplain : ∀ first letters, ["-nx", "\\t"].head? = some first → ¬IsOption first letters := by
    rintro first letters ⟨⟩ ⟨htext, -, hflags⟩
    obtain rfl : ['n', 'x'] = letters := (List.cons.inj htext).2
    simp at hflags
  have hwhole : ({} : EchoOptions).written ["-nx", "\\t"] =
      [0x2D, 0x6E, 0x78, 0x20, 0x5C, 0x74, 0x0A] := by decide +kernel
  have htext := (echo_writes ["-nx", "\\t"]).2 hplain
  rw [hwhole] at htext
  exact ⟨hoption, hwrites, hwrites.of_unlimited rfl rfl, hplain, htext⟩

end ShellScript
