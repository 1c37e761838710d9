import LineShell.Text.Utf8

namespace LineShell

/-! The git that a shell calls.

A backend answers from the calls made so far and the arguments of this one, so
that it may be any program with a memory. Two ways of calling it exist: `run`
leaves it the terminal and waits for its status, `capture` takes its output.
Either can fail to start it.
-/

abbrev Status := Int32

namespace Git

/-- A call that was made, with its answer. -/
inductive Call where
  | run (arguments : List Text) (answer : Except Text Status)
  | capture (arguments : List Text) (answer : Except Text Text)

namespace Call

/-- The arguments, if the program was given the terminal. -/
def runArguments? : Call → Option (List Text)
  | .run arguments _ => some arguments
  | .capture _ _ => none

/-- The arguments, if the output was taken. -/
def captureArguments? : Call → Option (List Text)
  | .run _ _ => none
  | .capture arguments _ => some arguments

def arguments : Call → List Text
  | .run arguments _ => arguments
  | .capture arguments _ => arguments

end Call

/-- The answer to a run: its status or why it could not be started, and what it
wrote to the terminal. -/
structure RunAnswer where
  status : Except Text Status
  out : Bytes
  err : Bytes

structure Backend where
  /-- The program that runs are announced with in the log, if they are. -/
  announced : Option Text
  run : List Call → List Text → RunAnswer
  capture : List Call → List Text → Except Text Text

/-- A backend whose program cannot be started. -/
def Backend.missing (program reason : Text) : Backend where
  announced := some program
  run _ _ := ⟨.error reason, [], []⟩
  capture _ _ := .error reason

end Git

end LineShell
