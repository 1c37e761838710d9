import LineShell.Execution

namespace LineShell

/-! What becomes of the statements of a line.

Each statement that is reached is either run or skipped. An execution lists what
happened in order, and every run of statements is one. What a statement does
depends on the calls and the output so far, never on the log records.
-/

/-- What happened to a statement. -/
inductive Event where
  | ran (statement : Statement) (control : Control)
  | skipped (statement : Statement)

/-- What a journal holds apart from the log records. -/
structure Effects where
  calls : List Git.Call
  streams : Streams

def Journal.effects (journal : Journal) : Effects := ⟨journal.calls, journal.streams⟩

@[simp] theorem Journal.effects_log (journal : Journal) (level : Level) (origin : Origin)
    (message : Text) : (journal.log level origin message).effects = journal.effects := rfl

namespace Tools

def logRunning (statement : Statement) (journal : Journal) : Journal :=
  journal.log .debug .execution ("running: ".toList ++ statement.render)

def logSkipped (statement : Statement) (journal : Journal) : Journal :=
  journal.log .debug .execution ("skipped: ".toList ++ statement.render)

/-- From the status of the last statement that ran and the operator behind the
last one, through the events, to the end of the line. -/
inductive Execution (tools : Tools) : Status → Option Operator → List Statement → Journal →
    List Event → Outcome × Journal → Prop where
  | done {last gate journal} : Execution tools last gate [] journal [] (.completed last, journal)
  | ran {last gate statement statements journal status after events result}
      (opened : opens gate last = true)
      (run : tools.runStatement statement (logRunning statement journal) = (.status status, after))
      (onward : Execution tools status statement.next statements after events result) :
      Execution tools last gate (statement :: statements) journal
        (.ran statement (.status status) :: events) result
  | exited {last gate statement statements journal after}
      (opened : opens gate last = true)
      (run : tools.runStatement statement (logRunning statement journal) = (.exit, after)) :
      Execution tools last gate (statement :: statements) journal
        [.ran statement .exit] (.exitRequested last, after)
  | skipped {last gate statement statements journal events result}
      (shut : opens gate last = false)
      (onward : Execution tools last statement.next statements (logSkipped statement journal)
        events result) :
      Execution tools last gate (statement :: statements) journal
        (.skipped statement :: events) result

variable (tools : Tools)

theorem exists_execution (last : Status) (gate : Option Operator)
    (statements : List Statement) (journal : Journal) :
    ∃ events, Execution tools last gate statements journal events
      (tools.executeAfter last gate statements journal) := by
  induction statements generalizing last gate journal with
  | nil => exact ⟨[], .done⟩
  | cons statement statements ih =>
      unfold executeAfter
      by_cases opened : opens gate last = true
      · rw [if_pos opened]
        cases run : tools.runStatement statement (logRunning statement journal) with
        | mk control after =>
            rw [logRunning] at run
            rw [run]
            cases control with
            | status status =>
                obtain ⟨events, onward⟩ := ih status statement.next after
                exact ⟨_, .ran opened run onward⟩
            | exit => exact ⟨_, .exited opened run⟩
      · obtain ⟨events, onward⟩ := ih last statement.next (logSkipped statement journal)
        rw [if_neg opened]
        exact ⟨_, .skipped (by simpa using opened) onward⟩

/-- Running statements never ends in a refusal. -/
theorem executeAfter_defect? (last : Status) (gate : Option Operator)
    (statements : List Statement) (journal : Journal) :
    (tools.executeAfter last gate statements journal).1.defect? = none := by
  induction statements generalizing last gate journal with
  | nil => rfl
  | cons statement statements ih =>
      unfold executeAfter
      split
      · split
        · exact ih _ _ _
        · rfl
      · exact ih _ _ _

theorem runLine_of_accepted {line : Text} {statements : List Statement}
    (accepted : Statement.ofTokens (Token.scan line) = .ok statements) (journal : Journal) :
    tools.runLine line journal =
      ((tools.execute statements journal).1,
        (tools.execute statements journal).2.log .info .logging
          ((tools.execute statements journal).1.summary line)) := by
  rw [runLine, accepted]

/-- What a statement does: a built-in runs on the output, and git is called with
the name and the arguments. A git that cannot be started is complained about. -/
def act (statement : Statement) (effects : Effects) : Control × Effects :=
  match tools.registry.get? statement.name with
  | some builtin =>
      let (control, streams) :=
        builtin.run (tools.occasion statement.argumentValues) effects.streams
      (control, { effects with streams })
  | none =>
      let arguments := statement.name :: statement.argumentValues
      let answer := tools.git.run effects.calls arguments
      let calls := effects.calls ++ [.run arguments answer.status]
      let out := effects.streams.out.join answer.out
      let err := effects.streams.err.join answer.err
      match answer.status with
      | .ok status => (.status status, ⟨calls, ⟨out, err⟩⟩)
      | .error reason =>
          let message := "gitsh: failed to run git: ".toList ++ reason ++ ['\n']
          (.status notStartedStatus, ⟨calls, ⟨out, (err.write message).1⟩⟩)

theorem runStatement_eq_act (statement : Statement) (journal : Journal) :
    ((tools.runStatement statement journal).1,
      (tools.runStatement statement journal).2.effects) =
      tools.act statement journal.effects := by
  unfold runStatement act
  cases tools.registry.get? statement.name with
  | some builtin => rfl
  | none =>
      let arguments := statement.name :: statement.argumentValues
      have announced : (journal.announce tools.git arguments).calls = journal.calls ∧
          (journal.announce tools.git arguments).streams = journal.streams := by
        unfold Journal.announce
        split <;> exact ⟨rfl, rfl⟩
      obtain ⟨calls, streams⟩ := announced
      simp only [runGit, Journal.run, calls, streams, Journal.effects, arguments]
      cases (tools.git.run journal.calls arguments).status with
      | ok status => rfl
      | error reason => rfl

theorem act_of_run {statement : Statement} {journal after : Journal} {control : Control}
    (run : tools.runStatement statement journal = (control, after)) :
    tools.act statement journal.effects = (control, after.effects) := by
  rw [← runStatement_eq_act, run]

/-- Runs statements as `executeAfter` does, without a log. -/
def performAfter (last : Status) (gate : Option Operator) :
    List Statement → Effects → Outcome × Effects
  | [], effects => (.completed last, effects)
  | statement :: statements, effects =>
      if opens gate last then
        match tools.act statement effects with
        | (.status status, effects) => performAfter status statement.next statements effects
        | (.exit, effects) => (.exitRequested last, effects)
      else performAfter last statement.next statements effects

theorem executeAfter_eq_performAfter (last : Status) (gate : Option Operator)
    (statements : List Statement) (journal : Journal) :
    ((tools.executeAfter last gate statements journal).1,
      (tools.executeAfter last gate statements journal).2.effects) =
      tools.performAfter last gate statements journal.effects := by
  induction statements generalizing last gate journal with
  | nil => rfl
  | cons statement statements ih =>
      unfold executeAfter performAfter
      by_cases opened : opens gate last = true
      · rw [if_pos opened, if_pos opened]
        cases run : tools.runStatement statement (logRunning statement journal) with
        | mk control after =>
            have acted := tools.act_of_run run
            rw [logRunning, Journal.effects_log] at acted
            rw [logRunning] at run
            rw [run, acted]
            cases control with
            | status status => exact ih status statement.next after
            | exit => rfl
      · rw [if_neg opened, if_neg opened]
        exact ih last statement.next (logSkipped statement journal)

end Tools

end LineShell
