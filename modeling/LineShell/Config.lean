import LineShell.Log
import LineShell.Text.Blank
import LineShell.Toml.Writer

namespace LineShell

/-! Configurations. -/

structure Config where
  /-- The program that runs as git; the usual one if empty. -/
  git : Text
  logLevel : Text
  logFile : Text
  /-- The names to go by when git does not list its commands. -/
  fallbackCommands : List Text
  /-- Names that count as git commands in any case. -/
  extraCommands : List Text
deriving DecidableEq, Repr

structure LogFile where
  path : Text
  level : Level
deriving DecidableEq, Repr

namespace LogFile

def directory (file : LogFile) : Text :=
  ((file.path.reverse.dropWhile (· ≠ '/')).drop 1).reverse

/-- What a record adds to the file, if it gets there. -/
def line? (file : LogFile) (record : Record) : Option Text :=
  if file.level.shows record.level then some record.text else none

end LogFile

namespace Config

/-- The configuration of a user who states nothing. -/
def standard : Config where
  git := "git".toList
  logLevel := "warn".toList
  logFile := "~/.local/share/gitsh/gitsh.log".toList
  fallbackCommands :=
    ["add", "am", "archive", "bisect", "blame", "branch", "bundle", "checkout",
      "cherry-pick", "clean", "clone", "commit", "config", "describe", "diff",
      "fetch", "format-patch", "gc", "grep", "init", "log", "merge", "mv",
      "notes", "pull", "push", "range-diff", "rebase", "reflog", "remote",
      "reset", "restore", "revert", "rm", "shortlog", "show", "stash", "status",
      "submodule", "switch", "tag", "worktree"].map String.toList
  extraCommands := []

def program (config : Config) : Text :=
  if config.git.isEmpty then "git".toList else config.git

/-- The path with the home directory for a tilde that stands alone or before a
slash. -/
def expandHome (home path : Text) : Text :=
  match path with
  | ['~'] => home
  | '~' :: '/' :: rest => home ++ '/' :: rest
  | _ => path

def logPath? (config : Config) (home : Text) : Option Text :=
  let path := config.logFile.trim
  if path.isEmpty then none else some (expandHome home path)

/-- The level of the log, unless it is off. A name that is no level stands for
warnings. -/
def level? (config : Config) : Option Level :=
  if config.logLevel.map Char.toUpper = "OFF".toList then none
  else some ((Level.ofName? config.logLevel).getD .warn)

/-- The log file, unless there is none or the log is off. -/
def log? (config : Config) (home : Text) : Option LogFile := do
  return ⟨← config.logPath? home, ← config.level?⟩

def render (config : Config) : Text :=
  Toml.writeTable "settings".toList
    [("git".toList, Toml.writeString config.git),
      ("log_level".toList, Toml.writeString config.logLevel),
      ("log_file".toList, Toml.writeString config.logFile)] ++ ['\n'] ++
    Toml.writeTable "git".toList
      [("fallback_commands".toList, Toml.writeStrings config.fallbackCommands),
        ("extra_commands".toList, Toml.writeStrings config.extraCommands)]

end Config

end LineShell
