import LineShell.Git.Backend
import LineShell.Log
import LineShell.Sink
import LineShell.Text.Escaped

namespace LineShell

/-! What a shell has done so far.

Every step takes a journal and answers it with what the step did added at the
end: the calls of git, the log records, and the output.
-/

structure Journal where
  calls : List Git.Call
  records : List Record
  streams : Streams

namespace Journal

def start (streams : Streams) : Journal := ⟨[], [], streams⟩

def log (journal : Journal) (level : Level) (origin : Origin) (message : Text) :
    Journal :=
  { journal with records := journal.records ++ [⟨level, origin, message⟩] }

def print (journal : Journal) (text : Text) : Journal :=
  { journal with streams :=
      { journal.streams with out := (journal.streams.out.write text).1 } }

def complain (journal : Journal) (text : Text) : Journal :=
  { journal with streams :=
      { journal.streams with err := (journal.streams.err.write text).1 } }

def capture (journal : Journal) (git : Git.Backend) (arguments : List Text) :
    Except Text Text × Journal :=
  let answer := git.capture journal.calls arguments
  (answer, { journal with calls := journal.calls ++ [.capture arguments answer] })

/-- The log record of a run about to start, for a backend that announces its
runs. -/
def announce (journal : Journal) (git : Git.Backend) (arguments : List Text) :
    Journal :=
  match git.announced with
  | none => journal
  | some program =>
      journal.log .debug .git ("spawning ".toList ++ program ++ [' '] ++
        Text.escapedList arguments)

def run (journal : Journal) (git : Git.Backend) (arguments : List Text) :
    Except Text Status × Journal :=
  let journal := journal.announce git arguments
  let answer := git.run journal.calls arguments
  (answer.status,
    { journal with
      calls := journal.calls ++ [.run arguments answer.status]
      streams :=
        { out := journal.streams.out.join answer.out
          err := journal.streams.err.join answer.err } })

end Journal

end LineShell
