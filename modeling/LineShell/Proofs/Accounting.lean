import LineShell.Builtin.Standard
import LineShell.Proofs.History
import LineShell.Proofs.Wording

namespace LineShell

/-! What running statements leaves behind.

Each statement that is reached, up to a request to exit, leaves one record that says whether it
ran or was skipped. A statement that ran and is not built in leaves one call of git, with its
name and its arguments as they are meant; where git could not be started, it also leaves a
complaint, in the log and as a line of output. A statement that was skipped leaves nothing else.
-/

/-- How a statement is named: by its words with blanks between them, each quoted where it has to
be, or as it was typed where it cannot be quoted, and by its operator. -/
def Statement.caption (statement : Statement) : Text :=
  [' '].intercalate ((statement.command :: statement.arguments).map fun word =>
      (ShellQuoted.quote? word.content).getD word.raw) ++
    statement.next.elim [] (' ' :: ·.sign)

theorem Statement.render_eq_caption (statement : Statement) :
    statement.render = statement.caption := by
  obtain ⟨command, arguments, next⟩ := statement
  rw [render, caption, Text.join_eq_intercalate]
  cases next with
  | none => rfl
  | some operator => rw [Option.elim_some, operator.sign_eq]; rfl

namespace Event

def statement : Event → Statement
  | .ran statement _ => statement
  | .skipped statement => statement

def isExit : Event → Bool
  | .ran _ .exit => true
  | _ => false

def record : Event → Record
  | .ran statement _ => ⟨.debug, .execution, "running: ".toList ++ statement.caption⟩
  | .skipped statement => ⟨.debug, .execution, "skipped: ".toList ++ statement.caption⟩

end Event

/-- The statement ran, and its command is not the name of a built-in. -/
def Registry.misses (registry : Registry) : Event → Bool
  | .ran statement _ => registry.builtins.all (·.name ≠ statement.command.content)
  | .skipped _ => false

theorem Registry.get?_eq_none_iff {registry : Registry} {name : Text} :
    registry.get? name = none ↔ ∀ builtin ∈ registry.builtins, builtin.name ≠ name := by
  simp [get?]

/-- One of the records that name the statements. -/
def Record.isTrace (record : Record) : Bool :=
  record.level = .debug && record.origin = .execution

/-- A statement for which git was called, with the answer. -/
structure Dispatch where
  statement : Statement
  answer : Git.RunAnswer

namespace Dispatch

/-- The words of the statement, as they are meant. -/
def arguments (dispatch : Dispatch) : List Text :=
  dispatch.statement.command.content :: dispatch.statement.arguments.map Token.content

def call (dispatch : Dispatch) : Git.Call := .run dispatch.arguments dispatch.answer.status

/-- What counts behind the statement. A git that could not be started has failed. -/
def status (dispatch : Dispatch) : Status :=
  match dispatch.answer.status with
  | .ok status => status
  | .error _ => 127

def event (dispatch : Dispatch) : Event := .ran dispatch.statement (.status dispatch.status)

def failure? (dispatch : Dispatch) : Option Record :=
  match dispatch.answer.status with
  | .ok _ => none
  | .error reason => some ⟨.error, .execution,
      "failed to run git ".toList ++ dispatch.statement.command.content ++ ": ".toList ++ reason⟩

def complaint? (dispatch : Dispatch) : Option Text :=
  match dispatch.answer.status with
  | .ok _ => none
  | .error reason => some ("gitsh: failed to run git: ".toList ++ reason ++ ['\n'])

/-- The error output behind the call. That the complaint may not fit is of no consequence. -/
def complain (dispatch : Dispatch) (err : Sink) : Sink :=
  match dispatch.complaint? with
  | none => err.join dispatch.answer.err
  | some complaint => ((err.join dispatch.answer.err).write complaint).1

/-- The records of the call, if the backend announces it with `announced`. -/
def records (dispatch : Dispatch) (announced : List Record) : List Record :=
  [dispatch.event.record] ++ announced ++ dispatch.failure?.toList

def journal (dispatch : Dispatch) (announced : List Record) (before : Journal) : Journal where
  calls := before.calls ++ [dispatch.call]
  records := before.records ++ dispatch.records announced
  streams :=
    { out := before.streams.out.join dispatch.answer.out
      err := dispatch.complain before.streams.err }

end Dispatch

/-- Git is called for a statement, since its command is not the name of a built-in. -/
structure Dispatches (tools : Tools) (dispatch : Dispatch) (before after : Journal) : Prop where
  missed : ∀ builtin ∈ tools.registry.builtins,
    builtin.name ≠ dispatch.statement.command.content
  answered : tools.git.run before.calls dispatch.arguments = dispatch.answer
  left : ∃ announced : List Record,
    (∀ record ∈ announced, record.level = .debug ∧ record.origin = .git) ∧
      after = dispatch.journal announced before

/-- What an event leaves behind. -/
inductive Leaves (tools : Tools) : Event → Journal → Journal → Prop where
  | skipped (statement : Statement) (before : Journal) :
      Leaves tools (.skipped statement) before
        { before with records := before.records ++ [(Event.skipped statement).record] }
  | builtin {statement : Statement} {before : Journal} {builtin : Builtin} {control : Control}
      {streams : Streams}
      (registered : tools.registry.get? statement.command.content = some builtin)
      (run : builtin.run ⟨statement.arguments.map Token.content, tools.catalog.git.toList,
        tools.registry.builtins.map Builtin.toManual⟩ before.streams = (control, streams)) :
      Leaves tools (.ran statement control) before
        { before with
          records := before.records ++ [(Event.ran statement control).record]
          streams }
  | dispatched {dispatch : Dispatch} {before after : Journal}
      (dispatches : Dispatches tools dispatch before after) :
      Leaves tools dispatch.event before after

/-- What events leave behind one after the other. -/
inductive LeavesInTurn (tools : Tools) : List Event → Journal → Journal → Prop where
  | nil (journal : Journal) : LeavesInTurn tools [] journal journal
  | cons {event : Event} {events : List Event} {before between after : Journal}
      (leaves : Leaves tools event before between)
      (onward : LeavesInTurn tools events between after) :
      LeavesInTurn tools (event :: events) before after

/-- A statement behind `gate` runs if the last one that ran ended with this status. -/
inductive Admits : Option Operator → Status → Prop where
  | always (last : Status) : Admits none last
  | sequence (last : Status) : Admits (some .sequence) last
  | and : Admits (some .and) 0
  | or {last : Status} (failed : last ≠ 0) : Admits (some .or) last

theorem opens_iff_admits {gate : Option Operator} {last : Status} :
    Tools.opens gate last = true ↔ Admits gate last := by
  constructor
  · intro opened
    match gate with
    | none => exact .always last
    | some .sequence => exact .sequence last
    | some .and =>
        obtain rfl : last = 0 := by simpa [Tools.opens, Operator.opens] using opened
        exact .and
    | some .or => exact .or (by simpa [Tools.opens, Operator.opens] using opened)
  · intro admits
    cases admits with
    | always | sequence | and => rfl
    | or failed => simpa [Tools.opens, Operator.opens] using failed

/-- The statements run and are skipped as the operators before them demand, from the status of
the last one that ran, and nothing comes after a request to exit. -/
inductive Gated : Status → Option Operator → List Event → Prop where
  | nil (last : Status) (gate : Option Operator) : Gated last gate []
  | ran {last status : Status} {gate : Option Operator} {statement : Statement}
      {events : List Event} (opened : Admits gate last)
      (onward : Gated status statement.next events) :
      Gated last gate (.ran statement (.status status) :: events)
  | exited {last : Status} {gate : Option Operator} {statement : Statement}
      (opened : Admits gate last) : Gated last gate [.ran statement .exit]
  | skipped {last : Status} {gate : Option Operator} {statement : Statement}
      {events : List Event} (shut : ¬ Admits gate last)
      (onward : Gated last statement.next events) :
      Gated last gate (.skipped statement :: events)

/-- What is left of events by kind: the calls of git are those for the statements among them
that ran and are not built in, and of the records that were added those that name statements
name theirs, and the errors are those of the calls. -/
structure Traces (registry : Registry) (events : List Event) (dispatches : List Dispatch)
    (added : List Record) (before after : Journal) : Prop where
  dispatched : events.filter registry.misses = dispatches.map Dispatch.event
  called : after.calls = before.calls ++ dispatches.map Dispatch.call
  logged : after.records = before.records ++ added
  traced : added.filter Record.isTrace = events.map Event.record
  failures : added.filter (·.level = .error) = dispatches.filterMap Dispatch.failure?

/-- The events of a run account for its statements and for all that it left behind. -/
structure Accounts (tools : Tools) (statements : List Statement) (before : Journal)
    (events : List Event) (dispatches : List Dispatch) (added : List Record)
    (result : Outcome × Journal) : Prop where
  reached : events.map Event.statement <+: statements
  finished : result.1.isExit = false → events.map Event.statement = statements
  exited : result.1.isExit = events.getLast?.any Event.isExit
  gated : Gated 0 none events
  left : LeavesInTurn tools events before result.2
  traces : Traces tools.registry events dispatches added before result.2

section

variable {tools : Tools} {registry : Registry} {event : Event} {events events' : List Event}
  {dispatch : Dispatch} {dispatches dispatches' : List Dispatch} {added added' : List Record}
  {before between after : Journal}

theorem Dispatch.records_isTrace {announced : List Record}
    (quiet : ∀ record ∈ announced, record.level = .debug ∧ record.origin = .git) :
    (dispatch.records announced).filter Record.isTrace = [dispatch.event.record] := by
  have named : dispatch.event.record.isTrace = true := rfl
  have announced_isTrace : announced.filter Record.isTrace = [] := by
    rw [List.filter_eq_nil_iff]
    intro record member
    simp [Record.isTrace, quiet record member]
  have failure_isTrace : dispatch.failure?.toList.filter Record.isTrace = [] := by
    unfold failure?
    split <;> rfl
  simp [records, named, announced_isTrace, failure_isTrace]

theorem Dispatch.records_errors {announced : List Record}
    (quiet : ∀ record ∈ announced, record.level = .debug ∧ record.origin = .git) :
    (dispatch.records announced).filter (·.level = .error) = dispatch.failure?.toList := by
  have named : dispatch.event.record.level = .debug := rfl
  have announced_errors : announced.filter (·.level = .error) = [] := by
    rw [List.filter_eq_nil_iff]
    intro record member
    simp [quiet record member]
  have failure_errors :
      dispatch.failure?.toList.filter (·.level = .error) = dispatch.failure?.toList := by
    unfold failure?
    split <;> rfl
  simp [records, named, announced_errors, failure_errors]

theorem Leaves.exists_traces (leaves : Leaves tools event before after) :
    ∃ dispatches added, Traces tools.registry [event] dispatches added before after := by
  cases leaves with
  | skipped statement =>
      exact ⟨[], [_], rfl, (List.append_nil _).symm, rfl, rfl, rfl⟩
  | @builtin statement _ builtin control streams registered run =>
      have known : tools.registry.misses (.ran statement control) = false := by
        rw [← Bool.not_eq_true]
        intro unknown
        have unknown : tools.registry.get? statement.command.content = none := by
          simpa [Registry.get?_eq_none_iff, Registry.misses] using unknown
        rw [unknown] at registered
        contradiction
      refine ⟨[], [_], ?_, (List.append_nil _).symm, rfl, rfl, rfl⟩
      simp [known]
  | @dispatched dispatch _ _ dispatches =>
      obtain ⟨missed, -, announced, quiet, rfl⟩ := dispatches
      refine ⟨[dispatch], dispatch.records announced, ?_, rfl, rfl,
        Dispatch.records_isTrace quiet, ?_⟩
      · have missed : tools.registry.misses dispatch.event = true := by
          simpa [Registry.misses, Dispatch.event] using missed
        simp [missed]
      · rw [Dispatch.records_errors quiet]
        cases failure : dispatch.failure? <;> simp [failure]

theorem Traces.append (first : Traces registry events dispatches added before between)
    (second : Traces registry events' dispatches' added' between after) :
    Traces registry (events ++ events') (dispatches ++ dispatches') (added ++ added')
      before after where
  dispatched := by rw [List.filter_append, List.map_append, first.dispatched, second.dispatched]
  called := by rw [second.called, first.called, List.map_append, List.append_assoc]
  logged := by rw [second.logged, first.logged, List.append_assoc]
  traced := by rw [List.filter_append, List.map_append, first.traced, second.traced]
  failures := by rw [List.filter_append, List.filterMap_append, first.failures, second.failures]

theorem LeavesInTurn.exists_traces (left : LeavesInTurn tools events before after) :
    ∃ dispatches added, Traces tools.registry events dispatches added before after := by
  induction left with
  | nil journal =>
      exact ⟨[], [], rfl, (List.append_nil _).symm, (List.append_nil _).symm, rfl, rfl⟩
  | cons leaves onward ih =>
      obtain ⟨dispatches, added, first⟩ := leaves.exists_traces
      obtain ⟨dispatches', added', second⟩ := ih
      exact ⟨_, _, first.append second⟩

end

namespace Tools

variable {tools : Tools} {statement : Statement} {statements : List Statement}
  {journal after : Journal} {control : Control} {last : Status} {gate : Option Operator}
  {events : List Event} {result : Outcome × Journal}

theorem exists_announced {git : Git.Backend} {arguments : List Text} {answer : Git.RunAnswer}
    (journal : Journal) (answered : git.run journal.calls arguments = answer) :
    ∃ announced : List Record,
      (∀ record ∈ announced, record.level = .debug ∧ record.origin = .git) ∧
      journal.run git arguments =
        (answer.status,
          { calls := journal.calls ++ [.run arguments answer.status]
            records := journal.records ++ announced
            streams :=
              { out := journal.streams.out.join answer.out
                err := journal.streams.err.join answer.err } }) := by
  unfold Journal.run Journal.announce
  subst answered
  split
  · exact ⟨[], by simp, by simp⟩
  · exact ⟨[_], by simp, rfl⟩

theorem logRunning_eq (statement : Statement) (journal : Journal) :
    logRunning statement journal = { journal with
      records := journal.records ++
        [⟨.debug, .execution, "running: ".toList ++ statement.caption⟩] } := by
  rw [← statement.render_eq_caption]
  rfl

theorem logSkipped_eq (statement : Statement) (journal : Journal) :
    logSkipped statement journal = { journal with
      records := journal.records ++ [(Event.skipped statement).record] } := by
  rw [Event.record, ← statement.render_eq_caption]
  rfl

theorem exists_dispatch (unregistered : tools.registry.get? statement.name = none)
    (run : tools.runStatement statement (logRunning statement journal) = (control, after)) :
    ∃ dispatch : Dispatch, dispatch.event = .ran statement control ∧
      Dispatches tools dispatch journal after := by
  have missed := Registry.get?_eq_none_iff.mp unregistered
  rw [logRunning_eq] at run
  cases answered : tools.git.run journal.calls (statement.name :: statement.argumentValues) with
  | mk status out err =>
      obtain ⟨announced, quiet, called⟩ :=
        exists_announced { journal with
          records := journal.records ++
            [⟨.debug, .execution, "running: ".toList ++ statement.caption⟩] } answered
      simp only [runStatement, unregistered, runGit, called] at run
      refine ⟨⟨statement, status, out, err⟩, ?_⟩
      cases status with
      | ok status =>
          obtain ⟨rfl, rfl⟩ := Prod.mk.inj run
          refine ⟨rfl, missed, answered, announced, quiet, ?_⟩
          simp only [Dispatch.journal, Dispatch.records, Dispatch.failure?, Option.toList,
            List.append_nil, ← List.append_assoc]
          rfl
      | error reason =>
          obtain ⟨rfl, rfl⟩ := Prod.mk.inj run
          refine ⟨rfl, missed, answered, announced, quiet, ?_⟩
          simp only [Dispatch.journal, Dispatch.records, ← List.append_assoc]
          rfl

theorem leaves_of_run
    (run : tools.runStatement statement (logRunning statement journal) = (control, after)) :
    Leaves tools (.ran statement control) journal after := by
  cases found : tools.registry.get? statement.name with
  | some builtin =>
      rw [runStatement, found, logRunning_eq] at run
      obtain ⟨rfl, rfl⟩ := Prod.mk.inj run
      exact .builtin found rfl
  | none =>
      obtain ⟨dispatch, event, dispatches⟩ := exists_dispatch found run
      rw [← event]
      exact .dispatched dispatches

namespace Execution

variable (execution : Execution tools last gate statements journal events result)

include execution

theorem gated : Gated last gate events := by
  induction execution with
  | done => exact .nil _ _
  | ran opened _ _ ih => exact .ran (opens_iff_admits.mp opened) ih
  | exited opened => exact .exited (opens_iff_admits.mp opened)
  | skipped shut _ ih => exact .skipped (by simp [← opens_iff_admits, shut]) ih

theorem leavesInTurn : LeavesInTurn tools events journal result.2 := by
  induction execution with
  | done => exact .nil _
  | ran _ run _ ih => exact .cons (leaves_of_run run) ih
  | exited _ run => exact .cons (leaves_of_run run) (.nil _)
  | skipped _ _ ih =>
      rw [logSkipped_eq] at ih
      exact .cons (.skipped _ _) ih

theorem reached : events.map Event.statement <+: statements := by
  induction execution with
  | done => exact List.nil_prefix
  | ran _ _ _ ih | skipped _ _ ih => exact (List.prefix_cons_inj _).mpr ih
  | exited => exact (List.prefix_cons_inj _).mpr List.nil_prefix

theorem finished (goes_on : result.1.isExit = false) :
    events.map Event.statement = statements := by
  induction execution with
  | done => rfl
  | ran _ _ _ ih | skipped _ _ ih => exact congrArg _ (ih goes_on)
  | exited => simp [Outcome.isExit] at goes_on

theorem isExit_eq : result.1.isExit = events.getLast?.any Event.isExit := by
  induction execution with
  | done | exited => rfl
  | @ran _ _ _ _ _ _ _ events _ _ _ _ ih | @skipped _ _ _ _ _ events _ _ _ ih =>
      rw [ih]
      cases events with
      | nil => rfl
      | cons => rw [List.getLast?_cons_cons]

end Execution

end Tools

end LineShell
