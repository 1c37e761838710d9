import LineShell.Builtin.Standard
import LineShell.Execution

namespace LineShell

/-! What a step adds to a journal.

While there is room for all output, a step puts calls of git, log records and output at the
end of the journal that it is given. What it puts there depends on the calls that git has
had before, and on nothing else in the journal.
-/

namespace Sink

variable {sink : Sink}

theorem write_of_room (unbounded : sink.room = none) (text : Text) :
    sink.write text = (sink.join (Utf8.encode text), true) := by
  obtain ⟨written, room⟩ := sink
  obtain rfl : room = none := unbounded
  rfl

theorem writeAll_of_room (unbounded : sink.room = none) (texts : List Text) :
    sink.writeAll texts = (sink.join (texts.flatMap Utf8.encode), true) := by
  induction texts generalizing sink with
  | nil => simp [writeAll, join]
  | cons text texts ih =>
      have still : (sink.join (Utf8.encode text)).room = none := unbounded
      rw [writeAll, write_of_room unbounded]
      simp only [ih still]
      simp [join]

end Sink

/-- Runs of git, log records and output. -/
structure Share where
  runs : List (List Text × Except Text Status)
  records : List Record
  out : Bytes
  err : Bytes

namespace Share

def calls (share : Share) : List Git.Call := share.runs.map fun run => .run run.1 run.2

/-- The shares of several steps, one after the other. -/
def total (shares : List Share) : Share where
  runs := shares.flatMap runs
  records := shares.flatMap records
  out := shares.flatMap out
  err := shares.flatMap err

def ofRecord (record : Record) : Share := ⟨[], [record], [], []⟩

def ofComplaint (text : Text) : Share := ⟨[], [], [], Utf8.encode text⟩

theorem calls_total (shares : List Share) : (total shares).calls = shares.flatMap calls := by
  rw [calls, total, List.map_flatMap]
  rfl

end Share

namespace Journal

variable {journal : Journal}

def add (journal : Journal) (share : Share) : Journal where
  calls := journal.calls ++ share.calls
  records := journal.records ++ share.records
  streams := ⟨journal.streams.out.join share.out, journal.streams.err.join share.err⟩

theorem add_total_nil (journal : Journal) : journal.add (.total []) = journal := by
  simp [add, Share.total, Share.calls, Sink.join]

theorem add_total_cons (journal : Journal) (share : Share) (shares : List Share) :
    journal.add (.total (share :: shares)) = (journal.add share).add (.total shares) := by
  simp [add, Share.total, Share.calls, Sink.join]

theorem add_inj {share share' : Share} :
    journal.add share = journal.add share' ↔ share = share' := by
  constructor
  · intro same
    obtain ⟨runs, records, out, err⟩ := share
    obtain ⟨runs', records', out', err'⟩ := share'
    simp only [add, Sink.join, Share.calls, Journal.mk.injEq, Streams.mk.injEq, Sink.mk.injEq,
      List.append_cancel_left_eq, and_true] at same
    obtain ⟨calls, rfl, rfl, rfl⟩ := same
    rw [List.map_inj_right] at calls
    · rw [calls]
    · rintro ⟨arguments, answer⟩ ⟨arguments', answer'⟩ same
      cases same
      rfl
  · rintro rfl
    rfl

/-- No output is lost. -/
def Roomy (journal : Journal) : Prop :=
  journal.streams.out.room = none ∧ journal.streams.err.room = none

theorem Roomy.add (roomy : journal.Roomy) (share : Share) : (journal.add share).Roomy := roomy

theorem log_eq_add (journal : Journal) (level : Level) (origin : Origin) (message : Text) :
    journal.log level origin message = journal.add (.ofRecord ⟨level, origin, message⟩) := by
  simp [log, add, Share.ofRecord, Share.calls, Sink.join]

theorem complain_eq_add (roomy : journal.Roomy) (text : Text) :
    journal.complain text = journal.add (.ofComplaint text) := by
  simp [complain, add, Share.ofComplaint, Share.calls, Sink.write_of_room roomy.2, Sink.join]

theorem add_ofComplaint_nil (journal : Journal) : journal.add (.ofComplaint []) = journal := by
  simp [add, Share.ofComplaint, Share.calls, Utf8.encode, Sink.join]

/-- After some calls of git the step has this result, and adds this share. -/
def Adds {α : Type} (step : Journal → α × Journal) (calls : List Git.Call) (result : α)
    (share : Share) : Prop :=
  ∀ journal : Journal, journal.calls = calls → journal.Roomy →
    step journal = (result, journal.add share)

namespace Adds

variable {α : Type} {step : Journal → α × Journal} {calls : List Git.Call} {result : α}
  {share earlier : Share}

theorem after (adds : Adds step (calls ++ earlier.calls) result share)
    (same : journal.calls = calls) (roomy : journal.Roomy) :
    step (journal.add earlier) = (result, journal.add (.total [earlier, share])) := by
  subst same
  rw [adds _ rfl (roomy.add earlier), add_total_cons, add_total_cons, add_total_nil]

theorem afterLog (adds : Adds step calls result share) (same : journal.calls = calls)
    (roomy : journal.Roomy) (level : Level) (origin : Origin) (message : Text) :
    step (journal.log level origin message) =
      (result, journal.add (.total [.ofRecord ⟨level, origin, message⟩, share])) := by
  have uncalled : calls ++ (Share.ofRecord ⟨level, origin, message⟩).calls = calls :=
    List.append_nil calls
  rw [log_eq_add]
  exact after (uncalled.symm ▸ adds) same roomy

theorem unique {result' : α} {share' : Share} (adds : Adds step calls result share)
    (adds' : Adds step calls result' share') : result = result' ∧ share = share' := by
  have here := adds ⟨calls, [], .unbounded⟩ rfl ⟨rfl, rfl⟩
  rw [adds' ⟨calls, [], .unbounded⟩ rfl ⟨rfl, rfl⟩] at here
  obtain ⟨rfl, same⟩ := Prod.mk.inj here
  exact ⟨rfl, (add_inj.mp same).symm⟩

end Adds

theorem exists_announce (git : Git.Backend) (arguments : List Text) :
    ∃ records, ∀ journal : Journal,
      journal.announce git arguments = journal.add ⟨[], records, [], []⟩ := by
  unfold announce
  cases git.announced with
  | none => exact ⟨[], fun journal => (journal.add_total_nil).symm⟩
  | some program => exact ⟨_, fun journal => journal.log_eq_add _ _ _⟩

theorem exists_adds_run (git : Git.Backend) (arguments : List Text) (calls : List Git.Call) :
    ∃ share, Adds (fun journal => journal.run git arguments) calls
      (git.run calls arguments).status share := by
  obtain ⟨records, announced⟩ := exists_announce git arguments
  let answer := git.run calls arguments
  refine ⟨⟨[(arguments, answer.status)], records, answer.out, answer.err⟩, ?_⟩
  rintro journal rfl roomy
  simp only [run, announced]
  simp [add, Share.calls, Sink.join, answer]

end Journal

/-- Nothing is done to the streams but writing, and the same whatever was written before. -/
def Streams.OnlyWritten (step : Streams → Control × Streams) : Prop :=
  ∃ control out err, ∀ streams : Streams, streams.out.room = none → streams.err.room = none →
    step streams = (control, ⟨streams.out.join out, streams.err.join err⟩)

namespace Builtin

open Streams (OnlyWritten)

theorem onlyWritten_print (texts : List Text) : OnlyWritten (print texts) := by
  refine ⟨.status 0, texts.flatMap Utf8.encode, [], ?_⟩
  intro streams out err
  rw [print, Sink.writeAll_of_room out]
  simp [writtenStatus, Sink.join]

theorem onlyWritten_refuse (manual : Manual) (unknown : List Text) :
    OnlyWritten (refuse manual unknown) := by
  refine ⟨.status 2, [], Utf8.encode (manual.complaint unknown), ?_⟩
  intro streams out err
  rw [refuse, Sink.write_of_room err]
  simp [Sink.join]

theorem onlyWritten_exit (occasion : Occasion) : OnlyWritten (exit.run occasion) := by
  unfold exit
  simp only
  cases exitManual.unknown occasion.arguments with
  | nil =>
      cases occasion.arguments.contains helpFlag with
      | true =>
          simp only [if_true]
          exact onlyWritten_print _
      | false =>
          refine ⟨.exit, [], [], ?_⟩
          intro streams out err
          simp [Sink.join]
  | cons argument more => exact onlyWritten_refuse _ _

theorem onlyWritten_help (occasion : Occasion) : OnlyWritten (help.run occasion) := by
  unfold help
  simp only
  cases helpManual.unknown occasion.arguments with
  | nil =>
      cases occasion.arguments.contains helpFlag with
      | true =>
          simp only [if_true]
          exact onlyWritten_print _
      | false =>
          simp only [Bool.false_eq_true, if_false]
          exact onlyWritten_print _
  | cons argument more => exact onlyWritten_refuse _ _

theorem onlyWritten_of_get? {name : Text} {builtin : Builtin}
    (found : Registry.standard.get? name = some builtin) (occasion : Occasion) :
    OnlyWritten (builtin.run occasion) := by
  have all : Registry.standard.builtins = [exit, help] := rfl
  have member : builtin ∈ Registry.standard.builtins := List.mem_of_find?_eq_some found
  rw [all] at member
  rcases List.mem_cons.mp member with rfl | member
  · exact onlyWritten_exit occasion
  · obtain rfl := List.mem_singleton.mp member
    exact onlyWritten_help occasion

end Builtin

namespace Tools

open Journal (Adds)

variable (tools : Tools)

theorem exists_adds_runGit (name : Text) (arguments : List Text) (calls : List Git.Call) :
    ∃ status share, Adds (tools.runGit name arguments) calls status share := by
  obtain ⟨share, ran⟩ := Journal.exists_adds_run tools.git (name :: arguments) calls
  cases answer : (tools.git.run calls (name :: arguments)).status with
  | ok status =>
      refine ⟨status, share, ?_⟩
      intro journal same roomy
      have done : journal.run tools.git (name :: arguments) = (_, _) := ran journal same roomy
      rw [runGit, done, answer]
  | error reason =>
      let record : Record :=
        ⟨.error, .execution, "failed to run git ".toList ++ name ++ ": ".toList ++ reason⟩
      let complaint : Text := "gitsh: failed to run git: ".toList ++ reason ++ ['\n']
      refine ⟨notStartedStatus, .total [share, .ofRecord record, .ofComplaint complaint], ?_⟩
      intro journal same roomy
      have done : journal.run tools.git (name :: arguments) = (_, _) := ran journal same roomy
      rw [runGit, done, answer]
      simp only [Journal.log_eq_add, Journal.add_total_cons, Journal.add_total_nil]
      rw [Journal.complain_eq_add ((roomy.add _).add _)]

theorem exists_adds_runStatement (standard : tools.registry = .standard) (statement : Statement)
    (calls : List Git.Call) :
    ∃ control share, Adds (tools.runStatement statement) calls control share := by
  cases found : tools.registry.get? statement.name with
  | none =>
      obtain ⟨status, share, ran⟩ :=
        exists_adds_runGit tools statement.name statement.argumentValues calls
      refine ⟨.status status, share, ?_⟩
      intro journal same roomy
      rw [runStatement, found]
      simp only [ran journal same roomy]
  | some builtin =>
      obtain ⟨control, out, err, written⟩ := Builtin.onlyWritten_of_get? (standard ▸ found)
        (tools.occasion statement.argumentValues)
      refine ⟨control, ⟨[], [], out, err⟩, ?_⟩
      intro journal same roomy
      rw [runStatement, found]
      simp only [written journal.streams roomy.1 roomy.2]
      simp [Journal.add, Share.calls]

theorem exists_adds_executeAfter (standard : tools.registry = .standard) (last : Status)
    (gate : Option Operator) (statements : List Statement) (calls : List Git.Call) :
    ∃ outcome share, Adds (tools.executeAfter last gate statements) calls outcome share := by
  induction statements generalizing last gate calls with
  | nil =>
      refine ⟨.completed last, .total [], ?_⟩
      intro journal same roomy
      rw [journal.add_total_nil]
      rfl
  | cons statement statements ih =>
      by_cases opened : opens gate last = true
      · obtain ⟨control, share, ran⟩ := exists_adds_runStatement tools standard statement calls
        let running : Record := ⟨.debug, .execution, "running: ".toList ++ statement.render⟩
        let begun : Share := .total [.ofRecord running, share]
        cases control with
        | status status =>
            obtain ⟨outcome, share', onward⟩ := ih status statement.next (calls ++ begun.calls)
            refine ⟨outcome, .total [begun, share'], ?_⟩
            intro journal same roomy
            rw [executeAfter, if_pos opened, ran.afterLog same roomy]
            exact onward.after same roomy
        | exit =>
            refine ⟨.exitRequested last, begun, ?_⟩
            intro journal same roomy
            rw [executeAfter, if_pos opened, ran.afterLog same roomy]
      · obtain ⟨outcome, share, onward⟩ := ih last statement.next calls
        let skipped : Record := ⟨.debug, .execution, "skipped: ".toList ++ statement.render⟩
        refine ⟨outcome, .total [.ofRecord skipped, share], ?_⟩
        intro journal same roomy
        rw [executeAfter, if_neg opened, onward.afterLog same roomy]

theorem exists_adds_runLine (standard : tools.registry = .standard) (line : Text)
    (calls : List Git.Call) : ∃ outcome share, Adds (tools.runLine line) calls outcome share := by
  cases read : Statement.ofTokens (Token.scan line) with
  | error defect =>
      let record : Record := ⟨.info, .logging, (Outcome.rejected defect).summary line⟩
      refine ⟨.rejected defect, .ofRecord record, ?_⟩
      intro journal same roomy
      rw [runLine, read]
      exact congrArg (Prod.mk _) (journal.log_eq_add _ _ _)
  | ok statements =>
      obtain ⟨outcome, share, ran⟩ :=
        exists_adds_executeAfter tools standard 0 none statements calls
      refine ⟨outcome, .total [share, .ofRecord ⟨.info, .logging, outcome.summary line⟩], ?_⟩
      intro journal same roomy
      have done : tools.execute statements journal = (outcome, journal.add share) :=
        ran journal same roomy
      rw [runLine, read]
      simp only [done, Journal.log_eq_add, Journal.add_total_cons, Journal.add_total_nil]

end Tools

end LineShell
