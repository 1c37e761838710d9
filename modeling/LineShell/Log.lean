import LineShell.Text.Basic

namespace LineShell

/-! Log records.

Records are kept as data in the order in which they arise. `Record.text` is how
one stands in a log file; whether it gets there is decided by the level of the
file.
-/

/-- How grave a record is, the gravest first. -/
inductive Level where
  | error
  | warn
  | info
  | debug
  | trace
deriving DecidableEq, Repr

namespace Level

def name : Level → Text
  | .error => "ERROR".toList
  | .warn => "WARN".toList
  | .info => "INFO".toList
  | .debug => "DEBUG".toList
  | .trace => "TRACE".toList

/-- Zero for the gravest. -/
def rank : Level → Nat
  | .error => 0
  | .warn => 1
  | .info => 2
  | .debug => 3
  | .trace => 4

def all : List Level := [.error, .warn, .info, .debug, .trace]

/-- The level of a name in upper or lower case. -/
def ofName? (name : Text) : Option Level :=
  all.find? (·.name = name.map Char.toUpper)

/-- A log with this level shows records of the other. -/
def shows (level other : Level) : Bool := other.rank ≤ level.rank

end Level

/-- The part of the shell that a record comes from. -/
inductive Origin where
  | catalog
  | execution
  | git
  | help
  | logging
deriving DecidableEq, Repr

def Origin.name : Origin → Text
  | .catalog => "gitsh::catalog".toList
  | .execution => "gitsh::exec".toList
  | .git => "gitsh::git".toList
  | .help => "gitsh::git::help".toList
  | .logging => "gitsh::logging".toList

structure Record where
  level : Level
  origin : Origin
  message : Text
deriving DecidableEq, Repr

namespace Record

/-- The record in a log file, without its time. A record below `info` also
names its thread, which is always the first, and its origin. -/
def text (record : Record) : Text :=
  ['['] ++ record.level.name ++ "] ".toList ++
    (if Level.info.rank < record.level.rank then
      "(1) ".toList ++ record.origin.name ++ ": ".toList
    else []) ++
    record.message

end Record

end LineShell
