import LineShell.Catalog
import LineShell.Outcome
import LineShell.Statement
import LineShell.Token.Scan

namespace LineShell

/-! Running lines.

Statements run one at a time, from left to right. The operator after a statement
decides whether the next one runs, by how the last statement that did run ended;
a statement that is skipped changes nothing but passes its own operator on. A
name that is not a built-in is a command of git.
-/

structure Tools where
  catalog : Catalog
  registry : Registry
  git : Git.Backend

namespace Tools

def notStartedStatus : Status := 127

/-- The circumstances in which a built-in runs with some arguments. -/
def occasion (tools : Tools) (arguments : List Text) : Occasion where
  arguments
  gitNames := tools.catalog.git.toList
  manuals := tools.registry.manuals

/-- Runs a command of git. That the message about a failure may not fit changes
nothing. -/
def runGit (tools : Tools) (name : Text) (arguments : List Text)
    (journal : Journal) : Status × Journal :=
  match journal.run tools.git (name :: arguments) with
  | (.ok status, journal) => (status, journal)
  | (.error reason, journal) =>
      let journal := journal.log .error .execution
        ("failed to run git ".toList ++ name ++ ": ".toList ++ reason)
      let message := "gitsh: failed to run git: ".toList ++ reason ++ ['\n']
      (notStartedStatus, journal.complain message)

/-- Runs one statement, whatever stands before it. -/
def runStatement (tools : Tools) (statement : Statement) (journal : Journal) :
    Control × Journal :=
  match tools.registry.get? statement.name with
  | some builtin =>
      let (control, streams) :=
        builtin.run (tools.occasion statement.argumentValues) journal.streams
      (control, { journal with streams })
  | none =>
      let (status, journal) :=
        tools.runGit statement.name statement.argumentValues journal
      (.status status, journal)

/-- Whether a statement runs, given the operator before it, if there is one, and
the status of the last statement that ran. -/
def opens (gate : Option Operator) (last : Status) : Bool :=
  gate.all (·.opens (last == 0))

/-- Runs statements after one that ended with the status `last`, the first of
them behind `gate`. -/
def executeAfter (tools : Tools) (last : Status) (gate : Option Operator) :
    List Statement → Journal → Outcome × Journal
  | [], journal => (.completed last, journal)
  | statement :: statements, journal =>
      if opens gate last then
        match tools.runStatement statement
            (journal.log .debug .execution
              ("running: ".toList ++ statement.render)) with
        | (.status status, journal) =>
            tools.executeAfter status statement.next statements journal
        | (.exit, journal) => (.exitRequested last, journal)
      else
        tools.executeAfter last statement.next statements
          (journal.log .debug .execution
            ("skipped: ".toList ++ statement.render))

def execute (tools : Tools) (statements : List Statement) (journal : Journal) :
    Outcome × Journal :=
  tools.executeAfter 0 none statements journal

/-- Runs a line, or refuses all of it, and logs how it ended. -/
def runLine (tools : Tools) (line : Text) (journal : Journal) : Outcome × Journal :=
  let (outcome, journal) :=
    match Statement.ofTokens (Token.scan line) with
    | .ok statements => tools.execute statements journal
    | .error defect => (.rejected defect, journal)
  (outcome, journal.log .info .logging (outcome.summary line))

end Tools

end LineShell
