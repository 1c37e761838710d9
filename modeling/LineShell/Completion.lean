import LineShell.Cursor
import LineShell.Execution
import LineShell.Git.HelpPage

namespace LineShell

/-! Completing the last word of a line.

A word in command position completes to a known name, a long option to an option
of the command it belongs to. The options of a git command are read from its
help page, which is asked for once and then remembered, also if it could not be
had.
-/

namespace Completion

/-- The long options of the git commands asked about so far; none for a help
page that could not be had. -/
abbrev Pages := List (Text × Option (List Text))

/-- Shorter names come first, names of one length in ascending order. -/
def precedes (left right : Text) : Bool :=
  left.byteSize < right.byteSize ||
    (left.byteSize == right.byteSize && !decide (right < left))

/-- Drops a name that equals the one before it. -/
def dropRepeats : List Text → List Text
  | [] => []
  | name :: names =>
      match names with
      | [] => [name]
      | next :: _ =>
          if name = next then dropRepeats names else name :: dropRepeats names

/-- The names that go on from what was typed, in the order in which they are
offered. A name that is complete is not offered. -/
def matching (typed : Text) (names : List Text) : List Text :=
  dropRepeats
    ((names.filter fun name => typed.isPrefixOf name && name ≠ typed).mergeSort
      precedes)

end Completion

namespace Tools

open Completion

def helpOptions (tools : Tools) (command : Text) (journal : Journal) :
    Option (List Text) × Journal :=
  match journal.capture tools.git [command, "-h".toList] with
  | (.ok page, journal) => (some (Git.HelpPage.longOptions page), journal)
  | (.error reason, journal) =>
      (none, journal.log .warn .help
        ("could not read help for git ".toList ++ command ++ ": ".toList ++ reason))

/-- The same from memory, if it was asked for before. -/
def recalledOptions (tools : Tools) (command : Text) (pages : Pages)
    (journal : Journal) : Option (List Text) × Pages × Journal :=
  match pages.lookup command with
  | some options => (options, pages, journal)
  | none =>
      let (options, journal) := tools.helpOptions command journal
      (options, (command, options) :: pages, journal)

/-- The options of a command, if it is known and they can be had. -/
def commandOptions (tools : Tools) (command : Text) (pages : Pages)
    (journal : Journal) : Option (List Text) × Pages × Journal :=
  if tools.catalog.isGit command then tools.recalledOptions command pages journal
  else if tools.catalog.isBuiltin command then
    ((tools.registry.get? command).map (·.optionNames), pages, journal)
  else (none, pages, journal)

def completeAt (tools : Tools) (cursor : Cursor) (pages : Pages)
    (journal : Journal) : Option (List Text) × Pages × Journal :=
  if cursor.isCommand then
    (some (matching cursor.token.raw tools.catalog.names), pages, journal)
  else if cursor.isOption && Git.HelpPage.isLong cursor.token.raw then
    match cursor.owner? with
    | none => (none, pages, journal)
    | some owner =>
        let (options, pages, journal) :=
          tools.commandOptions owner.token.content pages journal
        (options.map (matching cursor.token.raw), pages, journal)
  else (none, pages, journal)

/-- The word that a completion of the line would extend: the last one, if
nothing follows it. -/
def target? (line : Text) : Option Cursor :=
  if Text.endsBlank line then none
  else
    (Cursor.last? (Token.scan line)).filter fun cursor =>
      (cursor.suffix? line).isNone

/-- The completions of a line. There are none to speak of where nothing can be
completed, and an empty list where nothing goes on from what was typed. -/
def complete (tools : Tools) (line : Text) (pages : Pages) (journal : Journal) :
    Option (List Text) × Pages × Journal :=
  match target? line with
  | none => (none, pages, journal)
  | some cursor => tools.completeAt cursor pages journal

end Tools

end LineShell
