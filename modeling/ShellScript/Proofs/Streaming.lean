import Mathlib.Control.Monad.Basic
import ShellScript.Exec.Session
import ShellScript.Proofs.Inputs

/-!
# Running a script while it is read

`Session.run` reads a command, executes it, and only then reads the next one. `Parser.readings` is all that
the parser would read, with what is reported on the way, and `Session.walk` executes it item by item. Running
a script comes to walking its readings and flushing the output once (`run_eq_walk`).
-/

namespace ShellScript

/-- A read of a parser: what was reported meanwhile, and the item, unless the input was over. -/
structure Reading where
  events : List Event
  item : Option (Except ParseError Command)

namespace Parser

variable {σ : Type} [Input σ]

/-- All that iterating over a parser reads, the end of the input included. -/
def readings (p : Parser σ) : List Reading :=
  match _h : p.next with
  | (some (.ok command), p₁) => ⟨p₁.takeJournal.1, some (.ok command)⟩ :: p₁.takeJournal.2.readings
  | (item, p₁) => [⟨p₁.takeJournal.1, item⟩]
termination_by p.size
decreasing_by
  rw [size_takeJournal]
  exact size_next_lt _h

/-- The readings of a parser are its next one, and those behind it. -/
theorem readings_eq (p : Parser σ) :
    p.readings = match p.next with
      | (some (.ok c), p₁) => ⟨p₁.takeJournal.1, some (.ok c)⟩ :: p₁.takeJournal.2.readings
      | (item, p₁) => [⟨p₁.takeJournal.1, item⟩] := by
  rw [readings]
  split <;> simp_all

/-- There is no reading behind the end of the input. -/
theorem drop_readings_of_none (p : Parser σ) {n : Nat} {reading : Reading} {rest : List Reading}
    (h : p.readings.drop n = reading :: rest) (hitem : reading.item = none) : rest = [] := by
  fun_induction readings p generalizing n with
  | case1 p c p₁ hn ih =>
    cases n with
    | zero =>
      cases h
      cases hitem
    | succ n => exact ih h
  | case2 p item p₁ hnone hn =>
    cases n with
    | zero =>
      cases h
      rfl
    | succ n => simp at h

/-- What was reported before does not change what is read. -/
theorem items_takeJournal (p : Parser σ) : p.takeJournal.2.items.1 = p.items.1 := by
  let K := Correspondence.refl σ p.lexer.filename p.lexer.journal []
  have h : K.Parsers p p.takeJournal.2 := ⟨⟨rfl, rfl, rfl, [], rfl, rfl⟩, rfl, rfl⟩
  exact ((Correspondence.exact_refl σ _ _ _).items h).1

/-- The readings hold the items of the iteration. -/
theorem items_readings (p : Parser σ) : p.readings.filterMap Reading.item = p.items.1 := by
  fun_induction readings p with
  | case1 p c p₁ h ih =>
    rw [items_eq, h]
    simp [ih, items_takeJournal]
  | case2 p item p₁ hitem h =>
    rw [items_eq, h]
    rcases item with _ | e | c
    · rfl
    · rfl
    · exact (hitem c rfl).elim

end Parser

namespace Action

variable [Output]

/-- An action after another one, given what the first one comes to. -/
theorem bind_apply {α β : Type} (action : Action α) (next : α → Action β) (run : Run) :
    (action >>= next) run = match action run with
      | (.error e, run') => (.error e, run')
      | (.ok a, run') => next a run' := by
  change ExceptT.bindCont next (action run).1 (action run).2 = _
  rcases action run with ⟨_ | _, _⟩ <;> rfl

/-- What follows a check is done by live runs only. -/
theorem checkCancelled_bind {α : Type} (action : Action α) (run : Run) :
    (checkCancelled >>= fun _ => action) run =
      if run.cancelled then (.error .cancelled, run) else action run := by
  rw [bind_apply]
  obtain ⟨_, _, cancelled, _, _⟩ := run
  cases cancelled <;> rfl

end Action

namespace Session

section

variable [Output]

/-- Executes what a parser read, one item after the other: stops as cancelled at a command that a cancelled
run comes to, and executes it otherwise, stops at the error if that fails, and at the first item that is a
parse error. -/
def walk (s : Session) : List Reading → Action Unit
  | [] => fun run => (.ok (), run)
  | reading :: rest => fun run =>
    let run := run.report reading.events
    match reading.item with
    | none => s.walk rest run
    | some (.error e) => (.error (.parse e), run)
    | some (.ok command) =>
      if run.cancelled then (.error .cancelled, run)
      else match s.execute command run with
        | (.error e, run) => (.error e, run)
        | (.ok (), run) => s.walk rest run

/-- Walking stops at the first failure, and goes on where it stopped otherwise. -/
theorem walk_append (s : Session) (before after : List Reading) (run : Run) :
    s.walk (before ++ after) run = match s.walk before run with
      | (.error e, run') => (.error e, run')
      | (.ok (), run') => s.walk after run' := by
  induction before generalizing run with
  | nil => rfl
  | cons reading rest ih =>
    rw [List.cons_append, walk, walk]
    rcases reading.item with _ | e | command
    · exact ih _
    · rfl
    · dsimp only
      split
      · rfl
      · rcases s.execute command (run.report reading.events) with ⟨e | ⟨⟩, run'⟩
        · rfl
        · exact ih run'

/-- A command is executed unless the run was cancelled before. -/
theorem proceed_apply (s : Session) (command : Command) (run : Run) :
    s.proceed command run =
      if run.cancelled then (.error .cancelled, run) else s.execute command run :=
  Action.checkCancelled_bind _ run

variable {σ : Type} [Input σ]

/-- Commands run as they are read: each one, and then those behind it. -/
theorem runCommands_eq (s : Session) (p : Parser σ) (run : Run) :
    s.runCommands p run = match p.readCommand with
      | (.error e, p₁) => (.error (.parse e), run.report p₁.takeJournal.1)
      | (.ok none, p₁) => (.ok (), run.report p₁.takeJournal.1)
      | (.ok (some command), p₁) =>
        match s.proceed command (run.report p₁.takeJournal.1) with
        | (.error e, run) => (.error e, run)
        | (.ok (), run) => s.runCommands p₁.takeJournal.2 run := by
  rw [runCommands]
  split <;> rename_i h <;> rewrite [h] <;> rfl

/-- Reading and executing in turn comes to executing what was read before. -/
theorem runCommands_eq_walk (s : Session) (p : Parser σ) (hp : p.failed = false) (run : Run) :
    s.runCommands p run = s.walk p.readings run := by
  -- by induction on what is left to read, of which every command takes some
  induction hn : p.size using Nat.strongRecOn generalizing p run with
  | ind n ih =>
    subst hn
    have hlt := @Parser.size_readCommand_lt _ _ p
    have hfailed : ∀ c p₁, p.readCommand = (.ok c, p₁) → p₁.failed = false := by
      intro c p₁ h
      obtain ⟨l, -, rfl⟩ := Parser.readCommand_eq_ok.mp h
      rfl
    rw [runCommands_eq, Parser.readings_eq, Parser.next, hp]
    generalize p.readCommand = x at hlt hfailed ⊢
    rcases x with ⟨e | _ | command, p₁⟩
    · rfl
    · rfl
    · have hrest := ih p₁.size (hlt rfl) p₁.takeJournal.2 (hfailed (some command) p₁ rfl)
      simp only [Bool.false_eq_true, if_false, walk, proceed_apply]
      by_cases hcancelled : (run.report p₁.takeJournal.1).cancelled
      · rw [if_pos hcancelled, if_pos hcancelled]
      · rw [if_neg hcancelled, if_neg hcancelled]
        rcases s.execute command (run.report p₁.takeJournal.1) with ⟨e | ⟨⟩, run'⟩
        · rfl
        · exact hrest run' rfl

/-- The state after a flush of standard output, whether or not it fails. -/
def flushed (run : Run) : Run :=
  { run with stdout := (Output.flush run.stdout).2 }

/-- Flushing asks the writer of standard output, and fails as it does. -/
theorem flushStdout_apply (run : Run) :
    Action.flushStdout run = ((Output.flush run.stdout).1.mapError (.io ·.message), flushed run) := by
  have hflush : Action.flushStdout run = Action.ofWriter (Output.flush run.stdout).1 (flushed run) := rfl
  rw [hflush]
  cases (Output.flush run.stdout).1 <;> rfl

/-- The output is flushed after the action, and the error of the action comes first. -/
theorem thenFlush_apply (action : Action Unit) (run : Run) :
    thenFlush action run = match action run with
      | (.error e, run') => (.error e, flushed run')
      | (.ok (), run') => ((Output.flush run'.stdout).1.mapError (.io ·.message), flushed run') := by
  unfold thenFlush
  rcases action run with ⟨_ | ⟨⟩, run'⟩ <;> simp only [flushStdout_apply]

/-- Running a script is walking its readings, with a flush behind it. -/
theorem run_apply (s : Session) (input : σ) (filename : String) (run : Run) :
    s.run input filename run = match s.walk (Parser.ofInput input filename s.escape).readings run with
      | (.error e, run') => (.error e, flushed run')
      | (.ok (), run') => ((Output.flush run'.stdout).1.mapError (.io ·.message), flushed run') := by
  rw [Session.run, thenFlush_apply, s.runCommands_eq_walk _ rfl]

/-- Running a script has the effect and the result of walking, in order, the items that a parser yields on
it: commands up to the first failure have their effect, and nothing after it has any. Then the output is
flushed, once and whatever happened; failing to flush is the result only if walking came to an end. -/
theorem run_eq_walk (s : Session) (input : σ) (filename : String) (run : Run) :
    let parser := Parser.ofInput input filename s.escape
    let walked := s.walk parser.readings run
    parser.readings.filterMap Reading.item = parser.items.1 ∧
      (s.run input filename run = match walked with
        | (.error e, run') => (.error e, flushed run')
        | (.ok (), run') => ((Output.flush run'.stdout).1.mapError (.io ·.message), flushed run')) ∧
      ∀ n, walked = match s.walk (parser.readings.take n) run with
        | (.error e, stopped) => (.error e, stopped)
        | (.ok (), reached) => s.walk (parser.readings.drop n) reached := by
  intro parser walked
  refine ⟨parser.items_readings, s.run_apply input filename run, fun n => ?_⟩
  rw [← walk_append, List.take_append_drop]

end

/-- In `echo a; stop; echo b` the first command writes, the second one cancels the run, and the third one is
not executed. The output is flushed once. -/
theorem run_eq_walk_stop : ∃ (s : Session) (reached r : Run),
    s = ({} : Session).withBuiltin "stop" (fun _ => Action.cancel) ∧
      s.walk ((Parser.ofInput (Cursor.ofString "echo a; stop; echo b") "s" s.escape).readings.take 2) {} =
        (.ok (), reached) ∧
      reached.stdout.contents = [0x61, 0x0A] ∧ reached.stdout.flushes = 0 ∧ reached.cancelled = true ∧
      s.run (Cursor.ofString "echo a; stop; echo b") "s" {} = (.error .cancelled, r) ∧
      r.stdout.contents = [0x61, 0x0A] ∧ r.stdout.flushes = 1 := by
  let s : Session := ({} : Session).withBuiltin "stop" fun _ => Action.cancel
  let input := Cursor.ofString "echo a; stop; echo b"
  let readings := (Parser.ofInput input "s" s.escape).readings
  let reached := (s.walk (readings.take 2) {}).2
  let stopped := (s.walk (readings.drop 2) reached).2
  have hreached : (s.walk (readings.take 2) {}).1 = .ok () := by decide +kernel
  have hstopped : (s.walk (readings.drop 2) reached).1 = .error .cancelled := by decide +kernel
  have htake : s.walk (readings.take 2) {} = (.ok (), reached) := Prod.ext hreached rfl
  have hdrop : s.walk (readings.drop 2) reached = (.error .cancelled, stopped) := Prod.ext hstopped rfl
  obtain ⟨-, hrun, hparts⟩ := s.run_eq_walk input "s" {}
  have hwalk : s.walk readings {} = (.error .cancelled, stopped) := by
    rw [hparts 2, htake]
    exact hdrop
  rw [hwalk] at hrun
  exact ⟨s, reached, flushed stopped, rfl, htake, by decide +kernel, by decide +kernel, by decide +kernel,
    hrun, by decide +kernel, by decide +kernel⟩

end Session

end ShellScript
