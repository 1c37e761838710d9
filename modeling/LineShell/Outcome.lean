import LineShell.Builtin
import LineShell.Defect

namespace LineShell

/-! How a line ends. -/

inductive Outcome where
  /-- All statements were dealt with; the status is that of the last one run. -/
  | completed (status : Status)
  /-- Nothing was run. -/
  | rejected (defect : Defect)
  /-- A built-in asked to exit; the status is that of the last statement before
  it. -/
  | exitRequested (status : Status)
deriving DecidableEq, Repr

namespace Outcome

/-- The status of every line that is refused. -/
def rejectedStatus : Status := 2

def exitCode : Outcome → Status
  | .completed status => status
  | .rejected _ => rejectedStatus
  | .exitRequested status => status

def defect? : Outcome → Option Defect
  | .rejected defect => some defect
  | _ => none

def isExit : Outcome → Bool
  | .exitRequested _ => true
  | _ => false

def isRejected (outcome : Outcome) : Bool := outcome.defect?.isSome

inductive Kind where
  | ok
  | failed
  | syntaxRejected
  | parseRejected
  | exit
deriving DecidableEq, Repr

def kind : Outcome → Kind
  | .completed status => if status = 0 then .ok else .failed
  | .rejected defect => if defect.isLexical then .syntaxRejected else .parseRejected
  | .exitRequested _ => .exit

def Kind.name : Kind → Text
  | .ok => "ok".toList
  | .failed => "failed".toList
  | .syntaxRejected => "syntax-rejected".toList
  | .parseRejected => "parse-rejected".toList
  | .exit => "exit".toList

/-- How many characters of a line are logged. -/
def loggedLength : Nat := 200

/-- What is logged of a line and its outcome, separated by tabs. -/
def summary (line : Text) (outcome : Outcome) : Text :=
  Text.join ['\t'] ([outcome.kind.name, Text.ofInt outcome.exitCode.toInt,
    line.take loggedLength] ++ (outcome.defect?.map Defect.message).toList)

end Outcome

end LineShell
