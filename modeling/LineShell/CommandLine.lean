import LineShell.Config.Overlay
import LineShell.Dialogue
import LineShell.Highlight
import LineShell.Token.Json

namespace LineShell

/-! The program as it is called.

Its arguments say what to do; what it finds around it is the home directory, the
user's file, the input and git. All it does is answered as a report.
-/

inductive Task where
  | serve
  | run (line : Text)
  | highlight (line : Text)
  | complete (line : Text)
deriving DecidableEq, Repr

inductive Request where
  | perform (task : Task)
  | tokens (line : Text)
  | dumpConfig
  | help
  | unknown
deriving DecidableEq, Repr

def Request.ofArguments (arguments : List Text) : Request :=
  match arguments with
  | [] => .perform .serve
  | [flag] =>
      if flag = "--dump-config".toList then .dumpConfig
      else if flag = "-h".toList ∨ flag = "--help".toList then .help
      else .unknown
  | [flag, line] =>
      if flag = "-c".toList then .perform (.run line)
      else if flag = "--tokens".toList then .tokens line
      else if flag = "--highlight".toList then .perform (.highlight line)
      else if flag = "--complete".toList then .perform (.complete line)
      else .unknown
  | _ => .unknown

/-- What the program finds around it. -/
structure Surroundings where
  home : Text
  overlay : Option Bytes
  /-- What there is to object to a user's file that is not understood. -/
  objection : Text → Text
  /-- The lines of the input come from somebody who sees the prompt. -/
  interactive : Bool
  input : Bytes
  programs : Text → Option Git.Program

structure Report where
  status : Status
  journal : Journal
  log : Option LogFile

def Report.logged (report : Report) : List Text :=
  match report.log with
  | none => []
  | some file => report.journal.records.filterMap file.line?

namespace CommandLine

def overlayPath (home : Text) : Text :=
  home ++ "/.config/gitsh/config.toml".toList

def usage : Text :=
  Text.join ['\n'] <| List.map String.toList
    ["usage: gitsh                     read and run lines from stdin",
      "       gitsh -c <line>           run one line",
      "       gitsh --tokens <line>     print the tokens of a line as JSON",
      "       gitsh --highlight <line>  print the highlight style of each segment",
      "       gitsh --complete <line>   print completions for the end of a line",
      "       gitsh --dump-config       print the merged configuration"]

/-- The status of a call that makes no sense. -/
def misuseStatus : Status := 2

/-- The status where nothing can be completed. -/
def nothingStatus : Status := 1

/-- The configuration with the changes of the user's file. A file that is not
text counts for nothing, and so does one with anything unexpected in it, to which
there is an objection. -/
def configure (objection : Text → Text) (overlay : Option Bytes) (journal : Journal) :
    Config × Journal :=
  match overlay.bind Utf8.decode? with
  | none => (.standard, journal)
  | some document =>
      match Overlay.read? document with
      | some overlay => (overlay.apply .standard, journal)
      | none =>
          (.standard, journal.complain
            ("gitsh: config parse error: ".toList ++ objection document ++ ['\n']))

/-- The shell that a configuration and the programs of the system make. -/
def openShell (config : Config) (programs : Text → Option Git.Program)
    (journal : Journal) : Shell × Journal :=
  let git := Git.Program.backend config.program (programs config.program)
  Shell.load config git journal

/-- The segments of a line with their styles, each on a line. -/
def styledLines (catalog : Catalog) (line : Text) : Text :=
  (Segment.ofLine catalog line).flatMap fun segment =>
    segment.style.name ++ ['\t'] ++ Text.escaped segment.text ++ ['\n']

def perform (task : Task) (shell : Shell) (surroundings : Surroundings)
    (journal : Journal) : Status × Journal :=
  match task with
  | .serve => shell.serve surroundings.interactive surroundings.input journal
  | .run line =>
      let (outcome, journal) := shell.answer line journal
      (outcome.exitCode, journal)
  | .highlight line => (0, journal.print (styledLines shell.catalog line))
  | .complete line =>
      match shell.complete line [] journal with
      | (none, _, journal) => (nothingStatus, journal)
      | (some candidates, _, journal) =>
          (0, journal.print (candidates.flatMap (· ++ ['\n'])))

/-- Does what the program is asked to do. Only what needs a shell asks git
anything and is logged. -/
def run (request : Request) (surroundings : Surroundings) : Report :=
  let journal := Journal.start .unbounded
  match request with
  | .help => ⟨0, journal.print (usage ++ ['\n']), none⟩
  | .unknown => ⟨misuseStatus, journal.complain (usage ++ ['\n']), none⟩
  | .tokens line =>
      ⟨0, journal.print (Token.document (Token.scan line) ++ ['\n']), none⟩
  | .dumpConfig =>
      let (config, journal) :=
        configure surroundings.objection surroundings.overlay journal
      ⟨0, journal.print config.render, none⟩
  | .perform task =>
      let (config, journal) :=
        configure surroundings.objection surroundings.overlay journal
      let (shell, journal) := openShell config surroundings.programs journal
      let (status, journal) := perform task shell surroundings journal
      ⟨status, journal, config.log? surroundings.home⟩

end CommandLine

end LineShell
