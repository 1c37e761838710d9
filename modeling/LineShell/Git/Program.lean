import LineShell.Git.Backend

namespace LineShell.Git

/-! Git as a program of the system.

A program is known by what comes of each attempt to start it, which the system
may refuse for any reason. There is no starting a program that is not there, nor
anything with a NUL character in its name or its arguments.
-/

structure Performance where
  out : Bytes
  err : Bytes
  /-- Its exit status; none if a signal ended it. -/
  status : Option Status

/-- What comes of starting a program, given the arguments of the attempts before
and of this one: what it does, or why it was not started. -/
abbrev Program := List (List Text) → List Text → Except Text Performance

namespace Program

/-- The status of a program that a signal ended. -/
def signalledStatus : Status := 128

/-- What comes of starting a program by its name, after some calls. -/
def start (name : Text) (program : Option Program) (calls : List Call)
    (arguments : List Text) : Except Text Performance :=
  if (name :: arguments).any (·.contains '\x00') then
    .error "nul byte found in provided data".toList
  else
    match program with
    | none => .error "No such file or directory (os error 2)".toList
    | some program => program (calls.map Call.arguments) arguments

def runAnswer : Except Text Performance → RunAnswer
  | .ok performance =>
      ⟨.ok (performance.status.getD signalledStatus), performance.out,
        performance.err⟩
  | .error reason => ⟨.error reason, [], []⟩

/-- A program by its name, if there is one, as the git to call. What it prints as
an error while its output is taken is lost. -/
def backend (name : Text) (program : Option Program) : Backend where
  announced := some name
  run calls arguments := runAnswer (start name program calls arguments)
  capture calls arguments :=
    (start name program calls arguments).map fun performance =>
      Utf8.decodeLossy performance.out

end Program

end LineShell.Git
