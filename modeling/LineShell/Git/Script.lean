import LineShell.Git.Backend

namespace LineShell.Git

/-! A git whose answers are written down beforehand.

Runs are answered by the name of the command, captures by their arguments. A
list of statuses is used up run by run, and its last one stays.
-/

structure Script where
  statuses : List (Text × List Status)
  /-- Commands that cannot be started, with the reason. -/
  runErrors : List (Text × Text)
  /-- Output by the arguments joined with spaces. -/
  outputs : List (Text × Text)
  /-- Arguments whose output cannot be had, with the reason. -/
  captureErrors : List (Text × Text)

namespace Script

/-- Every command succeeds and prints nothing. -/
def silent : Script := ⟨[], [], [], []⟩

/-- The number of earlier runs of a command that were started. -/
def runsBefore (calls : List Call) (name : Text) : Nat :=
  calls.countP fun call =>
    match call with
    | .run arguments (.ok _) => arguments.head? = some name
    | _ => false

/-- The status at some place of a list; the last one beyond its end. -/
def statusAt (statuses : List Status) (index : Nat) : Status :=
  (statuses[index]?.or statuses.getLast?).getD 0

def run (script : Script) (calls : List Call) (arguments : List Text) :
    Except Text Status :=
  let name := arguments.head?.getD []
  match script.runErrors.lookup name with
  | some reason => .error reason
  | none =>
      .ok (statusAt ((script.statuses.lookup name).getD []) (runsBefore calls name))

def capture (script : Script) (arguments : List Text) : Except Text Text :=
  let key := Text.join [' '] arguments
  match script.captureErrors.lookup key with
  | some reason => .error reason
  | none => .ok ((script.outputs.lookup key).getD [])

/-- The script as a git to call. Its runs are not announced. -/
def backend (script : Script) : Backend where
  announced := none
  run calls arguments := ⟨script.run calls arguments, [], []⟩
  capture _ arguments := script.capture arguments

end Script

end LineShell.Git
