import ShellScript.Proofs.Streaming

/-!
# Cancelled runs

A resolver or a builtin may cancel the run, and what comes then is checked at two levels: before a command
is executed, and before an element asks the resolver. So a resolver is asked by live runs only, which is
stated as what cannot be told apart: a resolver that behaves differently once the run is cancelled
(`Resolver.whileLive`) makes no difference to any run. And a run that is cancelled when a command has ended
comes to no other command (`run_cancellation`).
-/

namespace ShellScript

section

variable [Output]

/-- The resolver while the run is not cancelled, and another one afterwards. -/
def Resolver.whileLive (resolver other : Resolver) : Resolver where
  resolveVariable v := fun run =>
    if run.cancelled then other.resolveVariable v run else resolver.resolveVariable v run
  runSubstitution s := fun run =>
    if run.cancelled then other.runSubstitution s run else resolver.runSubstitution s run

/-- Elements ask a resolver only while the run is not cancelled. -/
theorem Element.resolve_whileLive (resolver other : Resolver) :
    Element.resolve (resolver.whileLive other) = Element.resolve resolver := by
  funext e
  cases e with
  | literal => rfl
  | separator => rfl
  | reference v =>
    funext run
    refine (Action.checkCancelled_bind _ run).trans (.trans ?_ (Action.checkCancelled_bind _ run).symm)
    cases hc : run.cancelled
    · simp [Resolver.whileLive, hc]
    · rfl
  | substitution s =>
    funext run
    refine (Action.checkCancelled_bind _ run).trans (.trans ?_ (Action.checkCancelled_bind _ run).symm)
    cases hc : run.cancelled
    · simp [Resolver.whileLive, hc]
    · rfl

end

namespace Session

section

variable [Output]

/-- So do the commands of a session. -/
theorem execute_whileLive (s : Session) (other : Resolver) :
    { s with resolver := s.resolver.whileLive other }.execute = s.execute := by
  have htoken : Token.resolve (s.resolver.whileLive other) = Token.resolve s.resolver := by
    funext t
    rw [Token.resolve, Token.resolve, Element.resolve_whileLive]
  funext command
  rw [execute, execute, Command.argv, Command.argv, htoken]
  rfl

/-- Walking depends on what a session makes of a command in a live run, and on nothing else of it. -/
theorem walk_congr {s s' : Session}
    (h : ∀ command r, r.cancelled = false → s'.execute command r = s.execute command r) :
    s'.walk = s.walk := by
  funext readings
  induction readings with
  | nil => rfl
  | cons reading rest ih =>
    funext run
    rw [walk, walk, ih]
    rcases reading.item with _ | e | command
    · rfl
    · rfl
    · dsimp only
      split
      · rfl
      · rename_i hc
        rw [h command _ (Bool.eq_false_iff.mpr hc)]

/-- A cancelled run executes none of the readings that are left: it stops before the next command, and at
the error or the end of the input that is read instead. -/
theorem walk_of_cancelled (s : Session) {run : Run} (h : run.cancelled = true) (reading : Reading)
    (rest : List Reading) (hrest : reading.item = none → rest = []) :
    s.walk (reading :: rest) run =
      (match reading.item with
        | some (.ok _) => .error .cancelled
        | some (.error e) => .error (.parse e)
        | none => .ok (), run.report reading.events) := by
  rw [walk]
  rcases hitem : reading.item with _ | e | command
  · rw [hrest hitem]
    rfl
  · rfl
  · exact if_pos h

variable {σ : Type} [Input σ]

/-- Sessions run alike if they execute alike what is executed: commands before a cancellation. -/
theorem run_congr {s s' : Session} (hescape : s'.escape = s.escape)
    (h : ∀ command r, r.cancelled = false → s'.execute command r = s.execute command r)
    (input : σ) (filename : String) : s'.run input filename = s.run input filename := by
  funext run
  rw [run_apply, run_apply, hescape, walk_congr h]

/-- A run walks some of its readings, and then the others. -/
theorem run_of_append {s : Session} {input : σ} {filename : String} {before after : List Reading}
    (h : (Parser.ofInput input filename s.escape).readings = before ++ after) (run : Run) :
    s.run input filename run = match s.walk before run with
      | (.error e, r) => (.error e, flushed r)
      | (.ok (), r) => thenFlush (s.walk after) r := by
  rw [run_apply, h, walk_append]
  rcases s.walk before run with ⟨e | ⟨⟩, r⟩
  · rfl
  · exact (thenFlush_apply _ r).symm

/-- Only a live run asks the resolver or executes a command: what a resolver would answer to a cancelled
run makes no difference, and neither does what a command would do to it. A run that fails has no effect
after that, and neither has one that is cancelled when some readings were walked. That one ends as cancelled
if a command comes next, with the error if one does, and with the result of the flush at the end of the
input. -/
theorem run_cancellation (s : Session) (input : σ) (filename : String) (run : Run) :
    let readings := (Parser.ofInput input filename s.escape).readings
    (∀ other : Resolver, { s with resolver := s.resolver.whileLive other }.run input filename run =
      s.run input filename run) ∧
    (∀ s' : Session, s'.escape = s.escape →
      (∀ command r, r.cancelled = false → s'.execute command r = s.execute command r) →
      s'.run input filename run = s.run input filename run) ∧
    (∀ n e r, s.walk (readings.take n) run = (.error e, r) →
      s.run input filename run = (.error e, flushed r)) ∧
    (∀ n r, s.walk (readings.take n) run = (.ok (), r) → r.cancelled = true →
      s.run input filename run = match readings[n]? with
        | some ⟨events, some (.ok _)⟩ => (.error .cancelled, flushed (r.report events))
        | some ⟨events, some (.error e)⟩ => (.error (.parse e), flushed (r.report events))
        | some ⟨events, none⟩ => Action.flushStdout (r.report events)
        | none => Action.flushStdout r) := by
  intro readings
  refine ⟨fun other => ?_, fun s' hescape h => ?_, fun n e r hwalk => ?_, fun n r hwalk hcancelled => ?_⟩
  · let s' : Session := { s with resolver := s.resolver.whileLive other }
    have hexecute : s'.execute = s.execute := s.execute_whileLive other
    have hescape : s'.escape = s.escape := rfl
    exact congrFun (run_congr hescape (fun _ _ _ => by rw [hexecute]) input filename) run
  · exact congrFun (run_congr hescape h input filename) run
  · rw [run_of_append (List.take_append_drop n readings).symm, hwalk]
  · have hhead : (readings.drop n).head? = readings[n]? := List.head?_drop
    rw [run_of_append (List.take_append_drop n readings).symm, hwalk, ← hhead]
    refine (thenFlush_apply _ r).trans ?_
    -- the next reading decides, and nothing behind it is reached
    cases hdrop : readings.drop n with
    | nil => exact (flushStdout_apply r).symm
    | cons reading rest =>
      rw [walk_of_cancelled s hcancelled reading rest (Parser.drop_readings_of_none _ hdrop)]
      obtain ⟨events, item⟩ := reading
      rcases item with _ | e | command
      · exact (flushStdout_apply _).symm
      · rfl
      · rfl

end

/-- Behind a builtin that cancels the run, `echo` is read and writes nothing. -/
theorem run_cancellation_echo : ∃ (s : Session) (r : Run) (events : List Event),
    s = ({} : Session).withBuiltin "stop" (fun _ => Action.cancel) ∧
      s.walk ((Parser.ofInput (Cursor.ofString "stop; echo b") "s" s.escape).readings.take 1) {} =
        (.ok (), r) ∧
      r.cancelled = true ∧ r.stdout.contents = [] ∧
      s.run (Cursor.ofString "stop; echo b") "s" {} = (.error .cancelled, flushed (r.report events)) := by
  let s : Session := ({} : Session).withBuiltin "stop" fun _ => Action.cancel
  let input := Cursor.ofString "stop; echo b"
  let readings := (Parser.ofInput input "s" s.escape).readings
  let r := (s.walk (readings.take 1) {}).2
  have hresult : (s.walk (readings.take 1) {}).1 = .ok () := by decide +kernel
  have hwalk : s.walk (readings.take 1) {} = (.ok (), r) := Prod.ext hresult rfl
  have hcancelled : r.cancelled = true := by decide +kernel
  have hrun := (s.run_cancellation input "s" {}).2.2.2 1 r hwalk hcancelled
  have hcommand : (readings[1]?.bind Reading.item).map Except.isOk = some true := by decide +kernel
  rw [show (Parser.ofInput input "s" s.escape).readings = readings from rfl] at hrun
  rcases hnext : readings[1]? with _ | ⟨events, _ | e | c⟩ <;> rw [hnext] at hcommand hrun
  · cases hcommand
  · cases hcommand
  · cases hcommand
  · exact ⟨s, r, events, rfl, hwalk, hcancelled, by decide +kernel, hrun⟩

end Session

end ShellScript
