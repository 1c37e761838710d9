import LineShell.Git.Program
import LineShell.Prompt
import LineShell.Text.Lines

namespace LineShell

/-! Reading lines and running them.

The lines of the input are run in order until one asks to exit, one is not text,
or the input ends. The status of the whole is that of the last line run.
-/

namespace Shell

def shownContext : Nat := 40

/-- What is said about a line that is refused. -/
def refusal (line : Text) (defect : Defect) : Text :=
  "gitsh: ".toList ++ defect.message ++ ['\n'] ++
    defect.snippet line shownContext ++ ['\n']

/-- Runs a line, and says why if it is refused. -/
def answer (shell : Shell) (line : Text) (journal : Journal) : Outcome × Journal :=
  match shell.runLine line journal with
  | (.rejected defect, journal) =>
      (.rejected defect, journal.complain (refusal line defect))
  | answer => answer

inductive Turn where
  /-- It goes on; the status is that of the last line. -/
  | next (last : Status)
  | over (status : Status)
deriving DecidableEq, Repr

/-- The status of a dialogue with a line that is not text. -/
def unreadableStatus : Status := 1

def turn (shell : Shell) (line : Bytes) (journal : Journal) : Turn × Journal :=
  match Utf8.decode? line with
  | none =>
      (.over unreadableStatus, journal.complain
        "gitsh: failed to read input: stream did not contain valid UTF-8\n".toList)
  | some line =>
      let (outcome, journal) := shell.answer line journal
      (if outcome.isExit then .over outcome.exitCode else .next outcome.exitCode,
        journal)

/-- Shows the prompt, if somebody is there to see it. -/
def greet (shell : Shell) (interactive : Bool) (journal : Journal) : Journal :=
  if interactive then
    let (prompt, journal) := shell.prompt journal
    journal.print prompt
  else journal

/-- Deals with the lines of an input after one that ended with `last`. -/
def serveAfter (shell : Shell) (interactive : Bool) (last : Status) :
    List Bytes → Journal → Status × Journal
  | [], journal => (last, shell.greet interactive journal)
  | line :: lines, journal =>
      match shell.turn line (shell.greet interactive journal) with
      | (.over status, journal) => (status, journal)
      | (.next last, journal) => shell.serveAfter interactive last lines journal

def inputLines (input : Bytes) : List Bytes := Lines.split 0x0A 0x0D input

def serve (shell : Shell) (interactive : Bool) (input : Bytes) (journal : Journal) :
    Status × Journal :=
  shell.serveAfter interactive 0 (inputLines input) journal

end Shell

end LineShell
