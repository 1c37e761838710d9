import LineShell.Journal
import LineShell.Text.Blank
import LineShell.Text.Lines

namespace LineShell.Git

/-! What a shell asks git about the repository and about itself.

Every question is one capture. Only the command list tells an answer from a
failure to ask; for the others a failure is the answer of an empty repository.
-/

structure Changes where
  staged : Nat
  unstaged : Nat
deriving DecidableEq, Repr

namespace Changes

def none : Changes := ⟨0, 0⟩

/-- The changes that one line of a status listing shows: an upper-case letter in
the first column is a staged change, in the second an unstaged one. -/
def ofLine (line : Text) : Changes where
  staged := if line.head?.any Char.isUpper then 1 else 0
  unstaged := if (line.drop 1).head?.any Char.isUpper then 1 else 0

def add (left right : Changes) : Changes :=
  ⟨left.staged + right.staged, left.unstaged + right.unstaged⟩

def ofListing (listing : Text) : Changes :=
  (listing.lines.map ofLine).foldr add none

end Changes

def listArguments : List Text := ["--list-cmds=main,nohelpers".toList]

def isRepositoryArguments : List Text :=
  ["rev-parse".toList, "--is-inside-work-tree".toList]

def branchArguments : List Text :=
  ["rev-parse".toList, "--abbrev-ref".toList, "HEAD".toList]

def changesArguments : List Text := ["status".toList, "--porcelain".toList]

/-- The names in a command list: its lines without the blanks around them, but
for the lines that have nothing else. -/
def namesOfListing (listing : Text) : List Text :=
  (listing.lines.map Text.trim).filter (!·.isEmpty)

namespace Backend

def listCommands (git : Backend) (journal : Journal) :
    Except Text (List Text) × Journal :=
  let (answer, journal) := journal.capture git listArguments
  (answer.map namesOfListing, journal)

def isRepository (git : Backend) (journal : Journal) : Bool × Journal :=
  let (answer, journal) := journal.capture git isRepositoryArguments
  (answer.toOption.any (·.trim = "true".toList), journal)

def branch (git : Backend) (journal : Journal) : Option Text × Journal :=
  let (answer, journal) := journal.capture git branchArguments
  ((answer.toOption.map Text.trim).filter (!·.isEmpty), journal)

def changes (git : Backend) (journal : Journal) : Changes × Journal :=
  let (answer, journal) := journal.capture git changesArguments
  ((answer.toOption.map Changes.ofListing).getD .none, journal)

end Backend

end LineShell.Git
